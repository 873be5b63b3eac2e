import ChatRelay.Gemini.Response
import ChatRelay.Proofs.Chunks
import ChatRelay.Proofs.Gathering

/-!
# Answers of chat completions

The answer that a chat completion gives: the text, the tool calls and the finish reason of its first
choice (`ChatAnswer`). Here is what the converters of whole completions make of it for clients of
the two other dialects.

* `toolUsesOf_completionToClaude` -- the calls of the Claude reply;
* `calls_responseOfOpenai`, `finishReason?_responseOfOpenai` -- of the Gemini response.
-/

namespace ChatRelay

structure ChatAnswer where
  text : Bytes
  calls : List PendingCall
  reason : Bytes

namespace ChatAnswer

/-- The answer is that of the first choice of a chat completion. -/
def Of (a : ChatAnswer) (reply : Json) : Prop :=
  ∃ choice message, reply.headField? "choices" = some choice ∧
    choice.field? "message" = some message ∧
    message.field? "content" = some (.str a.text) ∧
    ((message.arrayField? "tool_calls").getD []).map PendingCall.ofPiece = a.calls ∧
    choice.field? "finish_reason" = some (.str a.reason)

/-- Every call has an id, a name and an object for arguments, and there is a finish reason. -/
structure Proper (a : ChatAnswer) : Prop where
  calls : ∀ c ∈ a.calls, c.Proper
  reason_ne : a.reason ≠ []

end ChatAnswer

open PendingCall

/-! ## 1. Entries of a list of tool calls -/

variable {entry : Json}

theorem isObject_of_proper (h : (ofPiece entry).Proper) : entry.isObject = true := by
  cases entry with
  | obj fields => rfl
  | _ => exact absurd rfl h.id_ne

/-- The function of an entry that has a name. -/
theorem objectField?_function_of_proper (h : (ofPiece entry).Proper) :
    entry.objectField? "function" = some ((entry.field? "function").getD .null) := by
  have hname : ((entry.field? "function").getD .null).stringField "name" ≠ [] := h.name_ne
  unfold Json.objectField?
  cases hfunction : entry.field? "function" with
  | none =>
    rw [hfunction] at hname
    exact absurd rfl hname
  | some function =>
    rw [hfunction] at hname
    cases function with
    | obj fields => rfl
    | _ => exact absurd rfl hname

theorem blockOfCall_of_proper (h : (ofPiece entry).Proper) :
    OpenAI.blockOfCall entry = some (wholeBlock (ofPiece entry)) := by
  rw [OpenAI.blockOfCall, if_pos (isObject_of_proper h)]
  rfl

/-- The part of a call as a whole. -/
def wholePart (c : PendingCall) : Json :=
  Gemini.callPart c.name (OpenAI.inputOfArguments c.arguments)

theorem partOfCall?_of_proper (h : (ofPiece entry).Proper) :
    Gemini.partOfCall? entry = some (wholePart (ofPiece entry)) := by
  obtain ⟨fields, hobject⟩ := h.object
  have hne : (ofPiece entry).arguments.isEmpty = false := by
    cases harguments : (ofPiece entry).arguments with
    | nil =>
      rw [harguments] at hobject
      cases hobject
    | cons b rest => rfl
  have hargs : Gemini.argsOfArguments (ofPiece entry).arguments =
      OpenAI.inputOfArguments (ofPiece entry).arguments := by
    rw [Gemini.argsOfArguments, hne, OpenAI.inputOfArguments, hobject]
    rfl
  rw [Gemini.partOfCall?, objectField?_function_of_proper h, wholePart, ← hargs]
  rfl

/-- Entries that are all calls are taken one by one. -/
theorem filterMap_of_proper {β : Type} {entries : List Json} {f : Json → Option β}
    {g : PendingCall → β}
    (hf : ∀ entry, (ofPiece entry).Proper → f entry = some (g (ofPiece entry)))
    (h : ∀ c ∈ entries.map ofPiece, c.Proper) :
    entries.filterMap f = (entries.map ofPiece).map g := by
  induction entries with
  | nil => rfl
  | cons entry entries ih =>
    obtain ⟨hentry, hentries⟩ := List.forall_mem_cons.mp h
    rw [List.filterMap_cons_some (hf entry hentry), ih hentries]
    rfl

/-! ## 2. As a Claude reply -/

/-- Whether a block is a tool call. -/
def ContentBlock.isToolUse : ContentBlock → Bool
  | .toolUse _ _ _ => true
  | _ => false

/-- The tool calls in the content of a Claude reply. -/
def toolUsesOf (reply : Json) : List ContentBlock :=
  (((reply.arrayField? "content").getD []).map ContentBlock.ofClaude).filter
    ContentBlock.isToolUse

theorem arrayField?_toClaude (c : Completion) (freshId : Bytes) :
    (c.toClaude freshId).arrayField? "content" = some (c.content.map ContentBlock.toClaude) := by
  rw [Json.arrayField?, Completion.toClaude, Json.field?_objectWith rfl]
  rfl

/-- A call is read back from its Claude value, unless its input is null. -/
theorem ofClaude_toClaude_toolUse (id name : Bytes) {input : Json} (h : input.isNull = false) :
    ContentBlock.ofClaude (ContentBlock.toolUse id name input).toClaude =
      .toolUse id name input := by
  rw [ContentBlock.toClaude, ContentBlock.inputOrEmpty, h]
  rfl

namespace ChatAnswer

variable {a : ChatAnswer} {reply : Json}

/-- The text block of an answer; there is none for an empty text. -/
def textBlocks (a : ChatAnswer) : List ContentBlock :=
  if a.text.isEmpty then [] else [.text a.text]

theorem content_completionOf (h : a.Of reply) (hproper : a.Proper) (id : Bytes) :
    (OpenAI.completionOf reply id).content = a.textBlocks ++ a.calls.map wholeBlock := by
  obtain ⟨choice, message, hchoice, hmessage, htext, hcalls, -⟩ := h
  have hmessage' :
      ((reply.headField? "choices").bind (·.field? "message")).getD .null = message := by
    rw [hchoice, Option.bind_some, hmessage]
    rfl
  have htext' : OpenAI.textOfMessage? message = if a.text.isEmpty then none else some a.text := by
    rw [OpenAI.textOfMessage?, htext]
    cases a.text <;> rfl
  have hcalls' : OpenAI.callsOfMessage message = a.calls.map wholeBlock := by
    rw [← hcalls]
    refine filterMap_of_proper (fun _ => blockOfCall_of_proper) ?_
    rw [hcalls]
    exact hproper.calls
  show (OpenAI.textOfMessage? _).toList.map ContentBlock.text ++ OpenAI.callsOfMessage _ = _
  rw [hmessage', htext', hcalls', textBlocks]
  split <;> rfl

/-- The calls of the Claude reply are those of the answer. -/
theorem toolUsesOf_completionToClaude (h : a.Of reply) (hproper : a.Proper) (id : Bytes) :
    toolUsesOf (OpenAI.completionToClaude reply id) = a.calls.map wholeBlock := by
  have htexts : (a.textBlocks.map fun b => ContentBlock.ofClaude b.toClaude).filter
      ContentBlock.isToolUse = [] := by
    unfold textBlocks
    split <;> rfl
  have hcalls : ∀ b ∈ a.calls.map wholeBlock, ContentBlock.ofClaude b.toClaude = b := by
    intro b hb
    obtain ⟨c, hc, rfl⟩ := List.mem_map.mp hb
    obtain ⟨fields, hobject⟩ := (hproper.calls c hc).object
    refine ofClaude_toClaude_toolUse _ _ ?_
    rw [OpenAI.inputOfArguments, hobject]
    rfl
  have hkept : ∀ b ∈ a.calls.map wholeBlock, ContentBlock.isToolUse b = true := by
    intro b hb
    obtain ⟨c, -, rfl⟩ := List.mem_map.mp hb
    rfl
  rw [toolUsesOf, OpenAI.completionToClaude, arrayField?_toClaude, Option.getD_some,
    content_completionOf h hproper, List.map_map]
  show ((a.textBlocks ++ a.calls.map wholeBlock).map fun b =>
    ContentBlock.ofClaude b.toClaude).filter _ = _
  rw [List.map_append, List.filter_append, htexts, List.map_congr_left hcalls, List.map_id',
    List.filter_eq_self.mpr hkept, List.nil_append]

/-! ## 3. As a Gemini response -/

/-- The response is one candidate with the parts of the answer and its finish reason. -/
theorem exists_responseOfOpenai (h : a.Of reply) (hproper : a.Proper) :
    ∃ texts usage, texts.filter Gemini.isCall = [] ∧
      Gemini.responseOfOpenai reply = .objectWith
        [("candidates", .arr [Gemini.candidate (texts ++ a.calls.map wholePart)
          (StopReason.openaiToGemini a.reason)])] [("usageMetadata", usage)] := by
  obtain ⟨choice, message, hchoice, hmessage, -, hcalls, hreason⟩ := h
  have hcalls' : ((message.arrayField? "tool_calls").getD []).filterMap Gemini.partOfCall? =
      a.calls.map wholePart := by
    rw [← hcalls]
    refine filterMap_of_proper (fun _ => partOfCall?_of_proper) ?_
    rw [hcalls]
    exact hproper.calls
  refine ⟨(OpenAI.textOfMessage? message).toList.map Gemini.textPart,
    Gemini.usageReport? reply "usage", ?_, ?_⟩
  · cases OpenAI.textOfMessage? message <;> rfl
  · rw [Gemini.responseOfOpenai, hchoice]
    dsimp only
    rw [hmessage, Option.getD_some, Gemini.partsOfChatMessage, hcalls', hreason]

/-- The function calls of the Gemini response are those of the answer. -/
theorem calls_responseOfOpenai (h : a.Of reply) (hproper : a.Proper) :
    (Gemini.partsOf (Gemini.responseOfOpenai reply)).filter Gemini.isCall =
      a.calls.map wholePart := by
  obtain ⟨texts, usage, htexts, hresponse⟩ := exists_responseOfOpenai h hproper
  have hparts :
      Gemini.partsOf (Gemini.responseOfOpenai reply) = texts ++ a.calls.map wholePart := by
    rw [hresponse]
    cases usage <;> rfl
  have hkept : ∀ p ∈ a.calls.map wholePart, Gemini.isCall p = true := by
    intro p hp
    obtain ⟨c, -, rfl⟩ := List.mem_map.mp hp
    rfl
  rw [hparts, List.filter_append, htexts, List.filter_eq_self.mpr hkept, List.nil_append]

theorem finishReason?_responseOfOpenai (h : a.Of reply) (hproper : a.Proper) :
    Gemini.finishReason? (Gemini.responseOfOpenai reply) =
      some (.str (StopReason.openaiToGemini a.reason)) := by
  obtain ⟨texts, usage, -, hresponse⟩ := exists_responseOfOpenai h hproper
  rw [hresponse]
  cases usage <;> rfl

end ChatAnswer

end ChatRelay
