import Mathlib.Data.List.Forall2
import ChatRelay.Proofs.Answers
import ChatRelay.Proofs.GeminiAnswers
import ChatRelay.Proofs.ToolTurns

/-!
# Turns of the assistant, replayed

A Claude client sends the turns of a conversation back with every request. What the assistant said
in a chat completion is then read as a Claude reply, kept by the client, and written as a chat
message again. This is the message that the backend sent, apart from the writing of the arguments:
`messagesOfMessage_replays_completion`.

A turn is a text, tool calls, or both (`AssistantTurn`). The blocks of its Claude reply are
`AssistantTurn.blocks` (`content_completionOf`), they are read back as they were
(`ofClaude_toClaude_blocks`), and a chat message is made of them (`messagesOfBlocks_blocks`).
-/

namespace ChatRelay.OpenAI

/-! ## 1. What the assistant said -/

/-- The entry of a list of tool calls makes this call (an id, a name and an input): its arguments
    are the text of the input, which is an object. -/
structure Makes (entry : Json) (call : Bytes × Bytes × Json) : Prop where
  id : entry.field? "id" = some (.str call.1)
  function : ∃ function arguments fields, entry.objectField? "function" = some function ∧
    function.field? "name" = some (.str call.2.1) ∧
    function.field? "arguments" = some (.str arguments) ∧
    Json.parse? arguments = some (.obj fields) ∧ call.2.2 = .obj fields

/-- **A turn of the assistant**: a text or none, and tool calls. -/
structure AssistantTurn where
  text : Option Bytes
  calls : List (Bytes × Bytes × Json)

namespace AssistantTurn

/-- **The turn is what a chat message says**: a text that is not empty, or no content at all, and
    the calls of its list. Something is said. -/
structure Of (t : AssistantTurn) (message : Json) : Prop where
  text : (t.text = none ∧ (message.field? "content" = none ∨
      message.field? "content" = some .null)) ∨
    ∃ text, text ≠ [] ∧ t.text = some text ∧ message.field? "content" = some (.str text)
  calls : List.Forall₂ Makes ((message.arrayField? "tool_calls").getD []) t.calls
  said : t.text ≠ none ∨ t.calls ≠ []

/-- The blocks that say it in the Claude dialect. -/
def blocks (t : AssistantTurn) : List ContentBlock :=
  t.text.toList.map ContentBlock.text ++ t.calls.map fun c => .toolUse c.1 c.2.1 c.2.2

/-- The chat message that says it, with the inputs of its calls as text. -/
def message (t : AssistantTurn) (calls : List (Bytes × Bytes × Bytes)) : Json :=
  .objectWith [("role", .str "assistant"), ("content", (t.text.map .str).getD .null)]
    [("tool_calls", if calls.isEmpty then none else some (.arr (calls.map listedCall)))]

end AssistantTurn

/-! ## 2. As a Claude reply -/

theorem Makes.blockOfCall_eq {entry : Json} {call : Bytes × Bytes × Json} (h : Makes entry call) :
    blockOfCall entry = some (.toolUse call.1 call.2.1 call.2.2) := by
  obtain ⟨function, arguments, fields, hfunction, hname, harguments, hparse, hinput⟩ := h.function
  have hobject : entry.isObject = true := by
    cases entry with
    | obj fields => rfl
    | _ => cases h.id
  have hfunctionD : (entry.field? "function").getD .null = function := by
    obtain ⟨found, hfound, hkept⟩ := Option.bind_eq_some_iff.mp hfunction
    rw [hfound, Option.getD_some]
    exact (Json.exists_obj_of_object? hkept).1
  rw [blockOfCall, if_pos hobject]
  dsimp only
  rw [hfunctionD, Json.stringField, Json.stringFieldD, h.id, Json.stringField, Json.stringFieldD,
    hname, Json.stringField, Json.stringFieldD, harguments, inputOfArguments, hparse, hinput]
  rfl

theorem filterMap_blockOfCall {entries : List Json} {calls : List (Bytes × Bytes × Json)}
    (h : List.Forall₂ Makes entries calls) :
    entries.filterMap blockOfCall = calls.map fun c => .toolUse c.1 c.2.1 c.2.2 := by
  induction h with
  | nil => rfl
  | cons hentry _ ih => rw [List.filterMap_cons_some hentry.blockOfCall_eq, ih, List.map_cons]

theorem exists_makes_of_mem {entries : List Json} {calls : List (Bytes × Bytes × Json)}
    (h : List.Forall₂ Makes entries calls) : ∀ call ∈ calls, ∃ entry, Makes entry call := by
  induction h with
  | nil => exact List.forall_mem_nil _
  | cons hentry _ ih => exact List.forall_mem_cons.mpr ⟨⟨_, hentry⟩, ih⟩

namespace AssistantTurn

variable {t : AssistantTurn} {message : Json}

theorem Of.textOfMessage?_eq (h : t.Of message) : textOfMessage? message = t.text := by
  rw [textOfMessage?]
  obtain ⟨hnone, hcontent | hcontent⟩ | ⟨text, hne, htext, hcontent⟩ := h.text
  · rw [hcontent, hnone]
    rfl
  · rw [hcontent, hnone]
    rfl
  · have hfull : text.isEmpty = false := List.isEmpty_eq_false_iff.mpr hne
    have hread : (some (Json.str text)).bind Json.string? = some text := rfl
    rw [hcontent, htext, hread, Option.filter_some, hfull]
    rfl

/-- The reply has the blocks of the turn. -/
theorem Of.content_completionOf (h : t.Of message) {reply choice : Json} (id : Bytes)
    (hchoice : reply.headField? "choices" = some choice)
    (hmessage : choice.field? "message" = some message) :
    (completionOf reply id).content = t.blocks := by
  have hfirst : ((reply.headField? "choices").bind (·.field? "message")).getD .null = message := by
    rw [hchoice, Option.bind_some, hmessage]
    rfl
  show (textOfMessage? _).toList.map ContentBlock.text ++ callsOfMessage _ = _
  rw [hfirst, h.textOfMessage?_eq, callsOfMessage, filterMap_blockOfCall h.calls, blocks]

/-- A call has an object for its input, and this is text. -/
theorem Of.input_of_mem (h : t.Of message) {call : Bytes × Bytes × Json} (hcall : call ∈ t.calls) :
    call.2.2.isNull = false ∧ call.2.2.isText = true := by
  obtain ⟨entry, hmakes⟩ := exists_makes_of_mem h.calls call hcall
  obtain ⟨_, _, fields, -, -, -, hparse, hinput⟩ := hmakes.function
  rw [hinput]
  exact ⟨rfl, Json.isText_of_parse? hparse⟩

/-- The blocks of the turn are read back. -/
theorem Of.ofClaude_toClaude_blocks (h : t.Of message) :
    (t.blocks.map ContentBlock.toClaude).map ContentBlock.ofClaude = t.blocks := by
  rw [List.map_map]
  refine (List.map_congr_left fun block hblock => ?_).trans (List.map_id t.blocks)
  rcases List.mem_append.mp hblock with hblock | hblock
  · obtain ⟨text, -, rfl⟩ := List.mem_map.mp hblock
    rfl
  · obtain ⟨call, hcall, rfl⟩ := List.mem_map.mp hblock
    exact ofClaude_toClaude_toolUse _ _ (h.input_of_mem hcall).1

/-! ## 3. As a chat message again -/

theorem filterMap_answer?_blocks (t : AssistantTurn) : t.blocks.filterMap answer? = [] := by
  refine List.filterMap_eq_nil_iff.mpr fun block hblock => ?_
  rcases List.mem_append.mp hblock with hblock | hblock <;>
    obtain ⟨-, -, rfl⟩ := List.mem_map.mp hblock <;> rfl

theorem filterMap_text?_blocks (t : AssistantTurn) : t.blocks.filterMap text? = t.text.toList := by
  have hcalls :
      (t.calls.map fun c => ContentBlock.toolUse c.1 c.2.1 c.2.2).filterMap text? = [] := by
    refine List.filterMap_eq_nil_iff.mpr fun block hblock => ?_
    obtain ⟨-, -, rfl⟩ := List.mem_map.mp hblock
    rfl
  rw [blocks, List.filterMap_append, hcalls, List.append_nil]
  cases t.text <;> rfl

theorem filterMap_call?_blocks (t : AssistantTurn) : t.blocks.filterMap call? = t.calls := by
  have htext : (t.text.toList.map ContentBlock.text).filterMap call? = [] := by
    cases t.text <;> rfl
  rw [blocks, List.filterMap_append, htext, List.nil_append, List.filterMap_map]
  exact List.filterMap_some

/-- **The blocks of a turn come to its chat message**, and the inputs of its calls can be
    written. -/
theorem Of.messagesOfBlocks_blocks (h : t.Of message) :
    ∃ calls, t.calls.mapM callText = .ok calls ∧
      messagesOfBlocks .assistant t.blocks = .ok [t.message calls] := by
  have hwritten : ∃ calls, t.calls.mapM callText = .ok calls := by
    refine mapM_eq_ok_of_forall fun call hcall => ?_
    exact ⟨_, map_eq_ok_iff.mpr ⟨_, Json.dump_of_isText (h.input_of_mem hcall).2, rfl⟩⟩
  obtain ⟨calls, hcalls⟩ := hwritten
  have hsaid : (t.text.toList.isEmpty && (calls.map listedCall).isEmpty) = false := by
    rcases h.said with htext | hne
    · cases heq : t.text with
      | none => exact absurd heq htext
      | some text => rfl
    · have hlength := congrArg List.length (ids_of_callTexts hcalls)
      rw [List.length_map, List.length_map] at hlength
      cases calls with
      | nil => exact absurd (List.eq_nil_of_length_eq_zero hlength.symm) hne
      | cons call calls => exact Bool.and_false _
  refine ⟨calls, hcalls, ?_⟩
  unfold messagesOfBlocks
  rw [t.filterMap_answer?_blocks, t.filterMap_text?_blocks, t.filterMap_call?_blocks,
    mapM_eq_map_mapM toolCall_eq, hcalls]
  show (if (t.text.toList.isEmpty && (calls.map listedCall).isEmpty || false) = true then _
    else Except.ok [spoken .assistant t.text.toList (calls.map listedCall)]) = _
  rw [hsaid, Bool.or_false, if_neg (by decide), spoken, AssistantTurn.message, List.isEmpty_map]
  cases t.text with
  | none => rfl
  | some text =>
    have hline : Bytes.joinLines [text] = text := by simp [Bytes.joinLines]
    show Except.ok [Json.objectWith [_, (_, .str (Bytes.joinLines [text]))] _] = _
    rw [hline]
    rfl

end AssistantTurn

/-- **The turn of the assistant, replayed.** When the first choice of a chat completion says a turn,
    a Claude message of the assistant with the content of the converted reply becomes one chat
    message: it says the same text, and makes the same calls in their order, each under its id, with
    the input written anew. -/
theorem messagesOfMessage_replays_completion {reply choice said message : Json} {t : AssistantTurn}
    (id : Bytes) (hchoice : reply.headField? "choices" = some choice)
    (hsaid : choice.field? "message" = some said) (hturn : t.Of said)
    (hrole : message.field? "role" = some (.str "assistant"))
    (hcontent : message.field? "content" = (completionToClaude reply id).field? "content") :
    ∃ calls, t.calls.mapM callText = .ok calls ∧
      messagesOfMessage message = .ok [t.message calls] := by
  have hblocks := (completionOf reply id).field?_toClaude id "content"
  rw [hturn.content_completionOf id hchoice hsaid] at hblocks
  have hreplayed : message.field? "content" = some (.arr (t.blocks.map ContentBlock.toClaude)) :=
    hcontent.trans hblocks
  have hread : (Message.ofClaude message).content = t.blocks := by
    rw [Message.ofClaude, hreplayed]
    exact hturn.ofClaude_toClaude_blocks
  have hassistant : Role.ofChatText (message.stringField "role") = .assistant := by
    rw [Json.stringField, Json.stringFieldD, hrole]
    decide
  rw [messagesOfMessage, hassistant, hreplayed]
  dsimp only
  rw [hread]
  exact hturn.messagesOfBlocks_blocks

/-- A text and two calls; the arguments of the first are written with blanks. -/
theorem messagesOfMessage_replays_completion_of_two_calls :
    let entry (id name arguments : Bytes) : Json := .object [("id", .str id),
      ("type", .str "function"),
      ("function", .object [("name", .str name), ("arguments", .str arguments)])]
    let said : Json := .object [("role", .str "assistant"), ("content", .str "hi"),
      ("tool_calls", .arr [entry "a" "f" "\x7b \"x\" : 1 \x7d", entry "b" "g" "\x7b\x7d"])]
    let reply : Json :=
      .object [("choices", .arr [.object [("index", .int 0), ("message", said)]])]
    let message : Json := .objectWith [("role", .str "assistant")]
      [("content", (completionToClaude reply "msg_1").field? "content")]
    messagesOfMessage message = .ok [.object [("role", .str "assistant"), ("content", .str "hi"),
      ("tool_calls", .arr [entry "a" "f" "\x7b\"x\":1\x7d", entry "b" "g" "\x7b\x7d"])]] := by
  intro entry said reply message
  let t : AssistantTurn :=
    ⟨some "hi", [("a", "f", .object [("x", .int 1)]), ("b", "g", .object [])]⟩
  have hcalls : List.Forall₂ Makes ((said.arrayField? "tool_calls").getD []) t.calls := by
    have hfirst : Makes (entry "a" "f" "\x7b \"x\" : 1 \x7d") ("a", "f", .object [("x", .int 1)]) :=
      ⟨rfl, _, _, [("x", .int 1)], rfl, rfl, rfl, by decide +kernel, rfl⟩
    have hsecond : Makes (entry "b" "g" "\x7b\x7d") ("b", "g", .object []) :=
      ⟨rfl, _, _, [], rfl, rfl, rfl, by decide +kernel, rfl⟩
    exact .cons hfirst (.cons hsecond .nil)
  have hturn : t.Of said := ⟨.inr ⟨"hi", by decide, rfl, rfl⟩, hcalls, .inl (by decide)⟩
  obtain ⟨calls, hwritten, hreplayed⟩ :=
    @messagesOfMessage_replays_completion reply _ said message t "msg_1" rfl rfl hturn rfl rfl
  let written : List (Bytes × Bytes × Bytes) :=
    [("a", "f", "\x7b\"x\":1\x7d"), ("b", "g", "\x7b\x7d")]
  have hinputs : (t.calls.mapM callText).toOption = some written := by decide +kernel
  rw [hwritten] at hinputs
  obtain rfl : calls = written := Option.some.inj hinputs
  exact hreplayed

end ChatRelay.OpenAI
