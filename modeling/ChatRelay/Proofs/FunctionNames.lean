import ChatRelay.Proofs.Chunks
import ChatRelay.Proofs.RequestRoundTrip
import ChatRelay.Proofs.ToolTurns

/-!
# The names of functions

A Claude client answers a tool call by its id, and a Gemini backend expects the name of the
function. The conversion of a request carries the names of the calls along; what it comes to is that
an answer has the name of the last call with its id up to the message with the answer, this message
included (`requestOfClaude_names_answers`). Ids may repeat: those that the relay makes up do in
every turn.

* `nameOf?` -- the name by the calls of a conversation, and `find?_nameCalls` -- that the names
  carried along are these;
* `filter_partsOfContent` -- the parts of a message, one kind at a time;
* `contentsOfMessages_eq` -- the contents of a conversation, message by message.
-/

namespace ChatRelay.Gemini

open OpenAI (blocksOf callsOf answersOf call?)

/-! ## 1. Names by ids -/

/-- The name in the last of these calls that has this id. -/
def nameOf? (calls : List (Bytes × Bytes × Json)) (id : Bytes) : Option Bytes :=
  (calls.filter (·.1 = id)).getLast?.map (·.2.1)

/-- Only the blocks of one type are calls. -/
theorem call?_ofClaude (block : Json) : call? (ContentBlock.ofClaude block) =
    if block.stringField "type" = "tool_use" then
      some (block.stringField "id", block.stringField "name",
        (block.field? "input").getD (.obj []))
    else none := by
  by_cases htool : block.stringField "type" = "tool_use"
  · rw [ContentBlock.ofClaude, htool]
    rfl
  rw [if_neg htool, ContentBlock.ofClaude, if_neg htool]
  split
  · rfl
  · split
    · rw [ContentBlock.imageOf?]
      cases block.objectField? "source" with
      | none => rfl
      | some source =>
        rw [Option.bind_some]
        split <;> rfl
    · split
      · rfl
      · split <;> rfl

/-- A message adds its calls to the names. -/
theorem nameCalls_eq (names : Table Bytes Bytes) (message : Json) :
    nameCalls names message =
      (callsOf message).foldl (fun names call => Table.insert names call.1 call.2.1) names := by
  rw [nameCalls, callsOf, blocksOf]
  induction (message.arrayField? "content").getD [] generalizing names with
  | nil => rfl
  | cons block blocks ih =>
    rw [List.foldl_cons, ih, List.map_cons, List.filterMap_cons, call?_ofClaude, nameCall]
    split <;> rfl

/-- **The names after some messages** are those of their calls. -/
theorem find?_nameCalls (messages : List Json) (id : Bytes) :
    Table.find? (messages.foldl nameCalls []) id = nameOf? (messages.flatMap callsOf) id := by
  have hfold : messages.foldl nameCalls [] =
      ((messages.flatMap callsOf).map fun call => (call.1, call.2.1)).foldl
        (fun names entry => Table.insert names entry.1 entry.2) [] := by
    rw [List.foldl_map, List.foldl_flatMap]
    exact congrArg (List.foldl · [] messages) (funext fun names => funext (nameCalls_eq names))
  rw [hfold, Table.find?_foldl_insert_eq, List.filter_map, List.getLast?_map, Option.map_map]
  exact Option.or_none

/-! ## 2. The parts of a message -/

/-- Whether a part is a function response. -/
def isAnswer (part : Json) : Bool :=
  (part.field? "functionResponse").isSome

/-- The response of a function. -/
def responsePart (name : Bytes) (content : Json) : Json :=
  .object [("functionResponse", .object [("name", .str name), ("response", responseOf content)])]

/-- The part of an answer: it has the name of the function, if these calls have one with the id, and
    else the id. -/
def answerPart (calls : List (Bytes × Bytes × Json)) (answer : Bytes × Json) : Json :=
  responsePart ((nameOf? calls answer.1).getD answer.1) answer.2

/-- The part that makes a call; null is no arguments. -/
def callPartOf (call : Bytes × Bytes × Json) : Json :=
  callPart call.2.1 (ContentBlock.inputOrEmpty call.2.2)

variable {names : Table Bytes Bytes} {kind : Json → Bool}

/-- **One block**: its part is a response if it is an answer, a function call if it is a call. -/
theorem filter_partOfBlock? (names : Table Bytes Bytes) (block : ContentBlock) :
    (partOfBlock? names block).filter isAnswer = (OpenAI.answer? block).map (fun answer =>
        responsePart ((Table.find? names answer.1).getD answer.1) answer.2) ∧
      (partOfBlock? names block).filter isCall = (call? block).map callPartOf := by
  cases block with
  | text text =>
    rw [partOfBlock?]
    split <;> exact ⟨rfl, rfl⟩
  | thinking thought signature =>
    cases thought with
    | str text => cases signature <;> exact ⟨rfl, rfl⟩
    | _ => exact ⟨rfl, rfl⟩
  | _ => exact ⟨rfl, rfl⟩

/-- The content of a message; without one it is null. -/
def contentOf (message : Json) : Json :=
  (message.field? "content").getD .null

/-- **The parts of one kind** come from the blocks of one kind, if that is so block by block. -/
theorem filter_partsOfContent {α : Type} {read : ContentBlock → Option α} {write : α → Json}
    (hblock : ∀ block, (partOfBlock? names block).filter kind = (read block).map write)
    (htext : ∀ text, kind (textPart text) = false) (message : Json) :
    (partsOfContent names (contentOf message)).filter kind =
      ((blocksOf message).filterMap read).map write := by
  unfold contentOf blocksOf Json.arrayField?
  cases message.field? "content" with
  | none => rfl
  | some content =>
    cases content with
    | str text =>
      show [textPart text].filter kind = []
      rw [List.filter_cons, htext]
      rfl
    | arr blocks =>
      show (blocks.filterMap fun b => partOfBlock? names (ContentBlock.ofClaude b)).filter kind =
        ((blocks.map ContentBlock.ofClaude).filterMap read).map write
      rw [List.filter_filterMap, List.filterMap_map, List.map_filterMap]
      exact congrArg (List.filterMap · blocks) (funext fun b => hblock (ContentBlock.ofClaude b))
    | _ => rfl

/-- The responses among the parts are the answers of the message. -/
theorem filter_isAnswer_partsOfContent {calls : List (Bytes × Bytes × Json)}
    (hnames : ∀ id, Table.find? names id = nameOf? calls id) (message : Json) :
    (partsOfContent names (contentOf message)).filter isAnswer =
      (answersOf message).map (answerPart calls) := by
  refine filter_partsOfContent (fun block => ?_) (fun _ => rfl) message
  rw [(filter_partOfBlock? names block).1]
  refine congrArg (Option.map · (OpenAI.answer? block)) (funext fun answer => ?_)
  rw [hnames, answerPart]

/-- The function calls among the parts are the calls of the message. -/
theorem filter_isCall_partsOfContent (names : Table Bytes Bytes) (message : Json) :
    (partsOfContent names (contentOf message)).filter isCall =
      (callsOf message).map callPartOf :=
  filter_partsOfContent (fun block => (filter_partOfBlock? names block).2) (fun _ => rfl) message

/-! ## 3. The contents of a conversation -/

/-- The parts of contents, one after the other. -/
def partsHeld (contents : List Json) : List Json :=
  contents.flatMap fun content => (content.arrayField? "parts").getD []

theorem partsHeld_contentOfMessage? (names : Table Bytes Bytes) (message : Json) :
    partsHeld (contentOfMessage? names message).toList =
      partsOfContent names (contentOf message) := by
  unfold contentOfMessage? contentOf
  dsimp only
  split
  · rename_i hnone
    exact hnone.symm
  · exact List.append_nil _

/-- What is no object says nothing and calls nothing. -/
theorem contentsOfMessages_filter (names : Table Bytes Bytes) (messages : List Json) :
    contentsOfMessages names (messages.filter Json.isObject) =
      contentsOfMessages names messages := by
  induction messages generalizing names with
  | nil => rfl
  | cons message messages ih =>
    cases message with
    | obj fields =>
      rw [List.filter_cons_of_pos rfl, contentsOfMessages, contentsOfMessages]
      exact congrArg (_ ++ ·) (ih _)
    | _ => exact ih names

/-- **The contents message by message**: each is converted with the names of the calls up to it. -/
theorem contentsOfMessages_eq (names : Table Bytes Bytes) (messages : List Json) :
    contentsOfMessages names messages = messages.zipIdx.flatMap fun p =>
      (contentOfMessage? ((messages.take (p.2 + 1)).foldl nameCalls names) p.1).toList := by
  induction messages generalizing names with
  | nil => rfl
  | cons message messages ih =>
    rw [contentsOfMessages, List.zipIdx_cons, List.flatMap_cons, List.zipIdx_succ,
      List.flatMap_map]
    exact congrArg (_ ++ ·) (ih (nameCalls names message))

/-- The parts of one kind, message by message. -/
theorem filter_partsHeld (messages : List Json) :
    (partsHeld (contentsOfMessages [] messages)).filter kind = messages.zipIdx.flatMap fun p =>
      (partsOfContent ((messages.take (p.2 + 1)).foldl nameCalls [])
        (contentOf p.1)).filter kind := by
  rw [contentsOfMessages_eq, partsHeld, List.flatMap_assoc, List.filter_flatMap]
  refine congrArg (List.flatMap · messages.zipIdx) (funext fun p => ?_)
  exact congrArg (List.filter kind) (partsHeld_contentOfMessage? _ p.1)

/-! ## 4. Requests -/

/-- A request with messages is converted. -/
theorem requestOfClaude_eq {request : Json} {messages : List Json}
    (h : request.field? "messages" = some (.arr messages)) :
    requestOfClaude request = .ok (converted request (contentsOfMessages [] messages)) := by
  cases request with
  | obj fields =>
    have hfound : Table.find? fields "messages" = some (.arr messages) := h
    unfold requestOfClaude
    rw [Json.valueD_obj, hfound]
    show Except.ok (converted (.obj fields)
      (contentsOfMessages [] (messages.filter Json.isObject))) = _
    rw [contentsOfMessages_filter]
  | _ => cases h

theorem flatMap_zipIdx {α β : Type} (f : α → List β) (xs : List α) :
    (xs.zipIdx.flatMap fun p => f p.1) = xs.flatMap f := by
  calc (xs.zipIdx.flatMap fun p => f p.1)
      = (xs.zipIdx.map (·.1)).flatMap f := by rw [List.flatMap_map]
    _ = xs.flatMap f := by rw [List.zipIdx_map_fst]

/-- **Answers name the functions.** A request with messages is converted, and among the parts of its
    contents

    * the function responses are the answers of the messages, in their order, each with the name of
      the last call that has its id among the calls up to its message, or else with the id;
    * the function calls are the calls of the messages, in their order. -/
theorem requestOfClaude_names_answers {request : Json} {messages : List Json}
    (h : request.field? "messages" = some (.arr messages)) :
    ∃ converted contents, requestOfClaude request = .ok converted ∧
      converted.field? "contents" = some (.arr contents) ∧
      (partsHeld contents).filter isAnswer = (messages.zipIdx.flatMap fun p =>
        (answersOf p.1).map (answerPart ((messages.take (p.2 + 1)).flatMap callsOf))) ∧
      (partsHeld contents).filter isCall = (messages.flatMap callsOf).map callPartOf := by
  refine ⟨converted request (contentsOfMessages [] messages), contentsOfMessages [] messages,
    requestOfClaude_eq h, field?_converted request _ "contents", ?_, ?_⟩
  · rw [filter_partsHeld]
    refine congrArg (List.flatMap · messages.zipIdx) (funext fun p => ?_)
    exact filter_isAnswer_partsOfContent (find?_nameCalls _) p.1
  · rw [filter_partsHeld, List.map_flatMap,
      ← flatMap_zipIdx (fun message => (callsOf message).map callPartOf) messages]
    refine congrArg (List.flatMap · messages.zipIdx) (funext fun p => ?_)
    exact filter_isCall_partsOfContent _ p.1

/-- An id that comes again, an answer before its call in one message, an answer to no call, and a
    message that is none. -/
theorem requestOfClaude_names_answers_of_repeated_ids :
    let call (id name : Bytes) (input : Json) : Json := .object [("type", .str "tool_use"),
      ("id", .str id), ("name", .str name), ("input", input)]
    let answer (id : Bytes) (content : Json) : Json := .object [("type", .str "tool_result"),
      ("tool_use_id", .str id), ("content", content)]
    let message (role : Bytes) (blocks : List Json) : Json :=
      .object [("role", .str role), ("content", .arr blocks)]
    let response (name : Bytes) (response : Json) : Json := .object [("functionResponse",
      .object [("name", .str name), ("response", response)])]
    let request : Json := .object [("messages", .arr
      [message "assistant" [call "toolu_0" "look" (.int 1)],
        message "user" [answer "toolu_0" (.str "a"), answer "toolu_9" (.object [("x", .int 2)])],
        .str "?",
        message "assistant" [answer "toolu_1" (.str "b"), call "toolu_0" "find" .null,
          call "toolu_1" "read" (.object [])],
        message "user" [answer "toolu_0" (.str "c")]])]
    ∃ converted contents, requestOfClaude request = .ok converted ∧
      converted.field? "contents" = some (.arr contents) ∧
      (partsHeld contents).filter isAnswer =
        [response "look" (.object [("content", .str "a")]),
          response "toolu_9" (.object [("x", .int 2)]),
          response "read" (.object [("content", .str "b")]),
          response "find" (.object [("content", .str "c")])] ∧
      (partsHeld contents).filter isCall =
        [callPart "look" (.int 1), callPart "find" (.object []), callPart "read" (.object [])] := by
  intro call answer message response request
  exact @requestOfClaude_names_answers request _ rfl

end ChatRelay.Gemini
