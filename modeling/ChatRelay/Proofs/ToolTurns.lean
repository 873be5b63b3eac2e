import ChatRelay.OpenAI.Request
import ChatRelay.Proofs.Fallible
import ChatRelay.Proofs.JsonText

/-!
# Tool calls and their answers

A chat is refused unless the answers to tool calls stand directly behind the message that makes the
calls. A Claude conversation in which every message with calls is followed by one with the answers
(`Paired`) becomes a chat of this kind (`Answered`), with the same calls and the same answers in
their order: `messagesOfRequest_keeps_turns`.

Both sides are stated by readers of one message (`callsOf`, `answersOf` for a Claude message,
`listedCalls`, `answered?` for a chat message); what one message comes to is
`exists_of_messagesOfMessage`, and the conversation follows by induction over its turns.
-/

namespace ChatRelay.OpenAI

/-! ## 1. Claude conversations -/

/-- The blocks of a Claude message; a message without an array has none. -/
def blocksOf (message : Json) : List ContentBlock :=
  ((message.arrayField? "content").getD []).map ContentBlock.ofClaude

/-- The id, name and input of each tool call in a Claude message. -/
def callsOf (message : Json) : List (Bytes × Bytes × Json) :=
  (blocksOf message).filterMap call?

/-- The id and content of each answer in a Claude message. -/
def answersOf (message : Json) : List (Bytes × Json) :=
  (blocksOf message).filterMap answer?

/-- A message of the user or the assistant. -/
def Speaks (message : Json) : Prop :=
  message.stringField "role" = "user" ∨ message.stringField "role" = "assistant"

/-- **Tool calls in pairs of messages**: an assistant message with calls is followed by a user
    message that answers each of them once, and calls and answers occur nowhere else. -/
inductive Paired : List Json → Prop where
  | nil : Paired []
  | plain {message : Json} {rest : List Json} (speaks : Speaks message)
      (no_calls : callsOf message = []) (no_answers : answersOf message = [])
      (tail : Paired rest) : Paired (message :: rest)
  | turn {calling answering : Json} {rest : List Json}
      (assistant : calling.stringField "role" = "assistant") (calls : callsOf calling ≠ [])
      (no_answers : answersOf calling = [])
      (user : answering.stringField "role" = "user") (no_calls : callsOf answering = [])
      (answers : ((answersOf answering).map (·.1)).Perm ((callsOf calling).map (·.1)))
      (tail : Paired rest) : Paired (calling :: answering :: rest)

/-! ## 2. Chats -/

/-- The id, name and arguments of each tool call that a chat message lists. -/
def listedCalls (message : Json) : List (Bytes × Bytes × Bytes) :=
  ((message.arrayField? "tool_calls").getD []).map fun (call : Json) =>
    let function := (call.field? "function").getD .null
    (call.stringField "id", function.stringField "name", function.stringField "arguments")

/-- The id and text of an answer, if the chat message is one. -/
def answered? (message : Json) : Option (Bytes × Bytes) :=
  if message.stringField "role" = "tool" then
    some (message.stringField "tool_call_id", message.stringField "content")
  else none

/-- **Tool calls that are answered at once**: directly behind a message with calls stand messages
    that answer each of them once, and answers stand nowhere else. -/
inductive Answered : List Json → Prop where
  | nil : Answered []
  | plain {message : Json} {rest : List Json} (no_answer : answered? message = none)
      (no_calls : message.field? "tool_calls" = none) (tail : Answered rest) :
      Answered (message :: rest)
  | turn {calling : Json} {answering rest : List Json}
      (assistant : calling.stringField "role" = "assistant") (calls : listedCalls calling ≠ [])
      (tool : ∀ message ∈ answering, (answered? message).isSome = true)
      (answers : ((answering.filterMap answered?).map (·.1)).Perm
        ((listedCalls calling).map (·.1)))
      (tail : Answered rest) : Answered (calling :: (answering ++ rest))

/-! ## 3. Calls and answers one by one -/

/-- A call with its input as text. -/
def callText (call : Bytes × Bytes × Json) : Except RelayError (Bytes × Bytes × Bytes) :=
  call.2.2.dump.map (call.1, call.2.1, ·)

/-- An answer with its content as text. -/
def answerText (answer : Bytes × Json) : Except RelayError (Bytes × Bytes) :=
  answer.2.textOrDump.map (answer.1, ·)

/-- A call as a chat message lists it. -/
def listedCall (call : Bytes × Bytes × Bytes) : Json :=
  .object [("id", .str call.1), ("type", .str "function"),
    ("function", .object [("name", .str call.2.1), ("arguments", .str call.2.2)])]

/-- An answer as a chat message. -/
def answerMessage (answer : Bytes × Bytes) : Json :=
  .object [("role", .str "tool"), ("tool_call_id", .str answer.1), ("content", .str answer.2)]

theorem toolCall_eq (call : Bytes × Bytes × Json) :
    toolCall call.1 call.2.1 call.2.2 = (callText call).map listedCall := by
  unfold toolCall callText
  cases call.2.2.dump <;> rfl

theorem toolMessage_eq (answer : Bytes × Json) :
    toolMessage answer.1 answer.2 = (answerText answer).map answerMessage := by
  unfold toolMessage answerText
  cases answer.2.textOrDump <;> rfl

theorem filterMap_answerMessage (answers : List (Bytes × Bytes)) :
    (answers.map answerMessage).filterMap answered? = answers := by
  rw [List.filterMap_map]
  exact List.filterMap_some

theorem listedCalls_answerMessages (answers : List (Bytes × Bytes)) :
    (answers.map answerMessage).flatMap listedCalls = [] := by
  refine List.flatMap_eq_nil_iff.mpr fun message hmessage => ?_
  obtain ⟨answer, -, rfl⟩ := List.mem_map.mp hmessage
  rfl

/-- The ids stay what they are. -/
theorem ids_of_callTexts {calls : List (Bytes × Bytes × Json)}
    {texts : List (Bytes × Bytes × Bytes)} (h : calls.mapM callText = .ok texts) :
    texts.map (·.1) = calls.map (·.1) := by
  refine map_eq_of_mapM (fun call text hone => ?_) h
  obtain ⟨arguments, -, rfl⟩ := map_eq_ok_iff.mp hone
  rfl

theorem ids_of_answerTexts {answers : List (Bytes × Json)} {texts : List (Bytes × Bytes)}
    (h : answers.mapM answerText = .ok texts) : texts.map (·.1) = answers.map (·.1) := by
  refine map_eq_of_mapM (fun answer text hone => ?_) h
  obtain ⟨content, -, rfl⟩ := map_eq_ok_iff.mp hone
  rfl

/-! ## 4. One message -/

/-- What a message says apart from its answers: nothing, one message without calls, or one message
    with these calls. -/
inductive Speech (role : Role) : List (Bytes × Bytes × Bytes) → List Json → Prop where
  | silent : Speech role [] []
  | plain {message : Json} (no_answer : answered? message = none)
      (no_calls : message.field? "tool_calls" = none) : Speech role [] [message]
  | calling {message : Json} {calls : List (Bytes × Bytes × Bytes)} (calls_ne : calls ≠ [])
      (role_eq : message.stringField "role" = role.name) (no_answer : answered? message = none)
      (calls_eq : listedCalls message = calls) : Speech role calls [message]

theorem listedCalls_of_field?_eq_none {message : Json} (h : message.field? "tool_calls" = none) :
    listedCalls message = [] := by
  rw [listedCalls, Json.arrayField?, h]
  rfl

namespace Speech

variable {role : Role} {calls : List (Bytes × Bytes × Bytes)} {speech : List Json}

theorem listedCalls_eq (h : Speech role calls speech) : speech.flatMap listedCalls = calls := by
  cases h with
  | silent => rfl
  | plain no_answer no_calls =>
    rw [List.flatMap_singleton]
    exact listedCalls_of_field?_eq_none no_calls
  | calling calls_ne role_eq no_answer calls_eq =>
    rw [List.flatMap_singleton]
    exact calls_eq

theorem no_answers (h : Speech role calls speech) : speech.filterMap answered? = [] := by
  cases h with
  | silent => rfl
  | plain no_answer => rw [List.filterMap_cons_none no_answer, List.filterMap_nil]
  | calling _ _ no_answer => rw [List.filterMap_cons_none no_answer, List.filterMap_nil]

/-- Speech without calls does not disturb what follows. -/
theorem answered (h : Speech role [] speech) {rest : List Json} (hrest : Answered rest) :
    Answered (speech ++ rest) := by
  cases h with
  | silent => exact hrest
  | plain no_answer no_calls => exact .plain no_answer no_calls hrest
  | calling calls_ne => exact absurd rfl calls_ne

end Speech

/-- The message with the texts and calls of blocks. -/
def spoken (role : Role) (texts : List Bytes) (calls : List Json) : Json :=
  .objectWith
    [("role", .str role.name),
      ("content", if texts.isEmpty then .null else .str (Bytes.joinLines texts))]
    [("tool_calls", if calls.isEmpty then none else some (.arr calls))]

theorem field?_role_spoken (role : Role) (texts : List Bytes) (calls : List Json) :
    (spoken role texts calls).field? "role" = some (.str role.name) :=
  Json.field?_objectWith rfl

/-- Only the role of a tool makes an answer. -/
theorem answered?_eq_none {message : Json} {role : Role} (hrole : role ≠ .tool)
    (h : message.field? "role" = some (.str role.name)) : answered? message = none := by
  have hname : message.stringField "role" = role.name := by
    rw [Json.stringField, Json.stringFieldD, h]
  have hnot_tool : role.name ≠ "tool" := by
    cases role with
    | tool => exact absurd rfl hrole
    | _ => decide
  rw [answered?, hname, if_neg hnot_tool]

theorem listedCalls_spoken (role : Role) (texts : List Bytes)
    (calls : List (Bytes × Bytes × Bytes)) :
    listedCalls (spoken role texts (calls.map listedCall)) = calls := by
  cases calls with
  | nil => rfl
  | cons call calls =>
    show ((call :: calls).map listedCall).map _ = _
    rw [List.map_map]
    exact List.map_id _

/-- **What blocks come to**: an answer each, and then at most one message. -/
theorem exists_of_messagesOfBlocks {role : Role} (hrole : role ≠ .tool) {blocks : List ContentBlock}
    {out : List Json} (h : messagesOfBlocks role blocks = .ok out) :
    ∃ answers calls speech, (blocks.filterMap answer?).mapM answerText = .ok answers ∧
      (blocks.filterMap call?).mapM callText = .ok calls ∧ Speech role calls speech ∧
      out = answers.map answerMessage ++ speech := by
  unfold messagesOfBlocks at h
  rw [mapM_eq_map_mapM toolMessage_eq, mapM_eq_map_mapM toolCall_eq] at h
  obtain ⟨answering, hanswering, h⟩ := bind_eq_ok_iff.mp h
  obtain ⟨answers, hanswers, rfl⟩ := map_eq_ok_iff.mp hanswering
  obtain ⟨listed, hlisted, h⟩ := bind_eq_ok_iff.mp h
  obtain ⟨calls, hcalls, rfl⟩ := map_eq_ok_iff.mp hlisted
  have hnot_tool : (role == .tool) = false := beq_eq_false_iff_ne.mpr hrole
  rw [hnot_tool, Bool.or_false, List.isEmpty_map] at h
  by_cases hsilent : ((blocks.filterMap text?).isEmpty && calls.isEmpty) = true
  · obtain ⟨-, hnone⟩ := Bool.and_eq_true_iff.mp hsilent
    rw [List.isEmpty_iff] at hnone
    subst hnone
    rw [if_pos hsilent] at h
    cases h
    exact ⟨answers, [], [], hanswers, hcalls, .silent, (List.append_nil _).symm⟩
  · rw [if_neg hsilent] at h
    cases h
    refine ⟨answers, calls, _, hanswers, hcalls, ?_, rfl⟩
    have hrole_spoken := field?_role_spoken role (blocks.filterMap text?) (calls.map listedCall)
    have hno_answer := answered?_eq_none hrole hrole_spoken
    cases calls with
    | nil => exact .plain hno_answer rfl
    | cons call calls =>
      exact .calling (List.cons_ne_nil _ _) rfl hno_answer
        (listedCalls_spoken role _ (call :: calls))

/-- **What a message of the user or the assistant comes to.** -/
theorem exists_of_messagesOfMessage {message : Json} (hspeaks : Speaks message) {out : List Json}
    (h : messagesOfMessage message = .ok out) :
    ∃ answers calls speech, (answersOf message).mapM answerText = .ok answers ∧
      (callsOf message).mapM callText = .ok calls ∧
      Speech (Role.ofChatText (message.stringField "role")) calls speech ∧
      out = answers.map answerMessage ++ speech := by
  have hrole : Role.ofChatText (message.stringField "role") ≠ .tool := by
    rcases hspeaks with hspeaks | hspeaks <;> rw [hspeaks] <;> decide
  unfold messagesOfMessage at h
  dsimp only at h
  unfold answersOf callsOf blocksOf Json.arrayField?
  split at h
  · rename_i text hcontent
    rw [hcontent]
    rw [if_neg hrole] at h
    cases h
    refine ⟨[], [], _, rfl, rfl, .plain ?_ rfl, rfl⟩
    exact answered?_eq_none hrole rfl
  · rename_i items hcontent
    rw [hcontent]
    have hblocks : (Message.ofClaude message).content = items.map ContentBlock.ofClaude := by
      rw [Message.ofClaude, hcontent]
    rw [hblocks] at h
    exact exists_of_messagesOfBlocks hrole h
  · rename_i hstring harray
    have hnone : (message.field? "content").bind Json.array? = none := by
      cases hcontent : message.field? "content" with
      | none => rfl
      | some content =>
        cases content with
        | arr items => exact absurd hcontent (harray items)
        | _ => rfl
    rw [hnone]
    cases h
    exact ⟨[], [], [], rfl, rfl, .silent, rfl⟩

/-! ## 5. Conversations -/

/-- **What a chat keeps of a conversation**: the calls and the answers, in their order. -/
structure Keeps (messages chat : List Json) : Prop where
  calls : (messages.flatMap callsOf).mapM callText = .ok (chat.flatMap listedCalls)
  answers : (messages.flatMap answersOf).mapM answerText = .ok (chat.filterMap answered?)

/-- Whatever the messages say, none of their calls and answers is lost. -/
theorem keeps_of_messagesOfMessage {messages : List Json} (h : ∀ message ∈ messages, Speaks message)
    {outs : List (List Json)} (hout : messages.mapM messagesOfMessage = .ok outs) :
    Keeps messages outs.flatten := by
  induction messages generalizing outs with
  | nil =>
    cases hout
    exact ⟨rfl, rfl⟩
  | cons message messages ih =>
    obtain ⟨hspeaks, hothers⟩ := List.forall_mem_cons.mp h
    obtain ⟨first, hfirst, rest, hrest, rfl⟩ := mapM_cons_eq_ok_iff.mp hout
    obtain ⟨answers, calls, speech, hanswers, hcalls, hspeech, rfl⟩ :=
      exists_of_messagesOfMessage hspeaks hfirst
    have hkeeps := ih hothers hrest
    refine ⟨mapM_append_eq_ok_iff.mpr ⟨_, hcalls, _, hkeeps.calls, ?_⟩,
      mapM_append_eq_ok_iff.mpr ⟨_, hanswers, _, hkeeps.answers, ?_⟩⟩
    · rw [List.flatten_cons, List.flatMap_append, List.flatMap_append, listedCalls_answerMessages,
        hspeech.listedCalls_eq, List.nil_append]
    · rw [List.flatten_cons, List.filterMap_append, List.filterMap_append, filterMap_answerMessage,
        hspeech.no_answers, List.append_nil]

theorem Paired.speaks {messages : List Json} (h : Paired messages) :
    ∀ message ∈ messages, Speaks message := by
  induction h with
  | nil => exact List.forall_mem_nil _
  | plain speaks _ _ _ ih => exact List.forall_mem_cons.mpr ⟨speaks, ih⟩
  | turn assistant _ _ user _ _ _ ih =>
    exact List.forall_mem_cons.mpr ⟨.inr assistant, List.forall_mem_cons.mpr ⟨.inl user, ih⟩⟩

/-- Nothing comes of nothing. -/
theorem nil_of_mapM {α β ε : Type} {f : α → Except ε β} {xs : List α} {bs : List β}
    (h : xs.mapM f = .ok bs) (hnil : xs = []) : bs = [] := by
  subst hnil
  cases h
  rfl

/-- **A conversation with its calls in pairs becomes a chat that answers them at once.** -/
theorem Paired.answered {messages : List Json} (h : Paired messages) {outs : List (List Json)}
    (hout : messages.mapM messagesOfMessage = .ok outs) : Answered outs.flatten := by
  induction h generalizing outs with
  | nil =>
    cases hout
    exact .nil
  | @plain message rest speaks no_calls no_answers tail ih =>
    obtain ⟨first, hfirst, others, hothers, rfl⟩ := mapM_cons_eq_ok_iff.mp hout
    obtain ⟨answers, calls, speech, hanswers, hcalls, hspeech, rfl⟩ :=
      exists_of_messagesOfMessage speaks hfirst
    obtain rfl := nil_of_mapM hanswers no_answers
    obtain rfl := nil_of_mapM hcalls no_calls
    exact hspeech.answered (ih hothers)
  | @turn calling answering rest assistant calls_ne no_answers user no_calls ids tail ih =>
    obtain ⟨first, hfirst, others, hothers, rfl⟩ := mapM_cons_eq_ok_iff.mp hout
    obtain ⟨second, hsecond, others, hrestOut, rfl⟩ := mapM_cons_eq_ok_iff.mp hothers
    obtain ⟨none, calls, speech, hnone, hcalls, hspeech, rfl⟩ :=
      exists_of_messagesOfMessage (.inr assistant) hfirst
    obtain ⟨answers, none', speech', hanswers, hnone', hspeech', rfl⟩ :=
      exists_of_messagesOfMessage (.inl user) hsecond
    obtain rfl := nil_of_mapM hnone no_answers
    obtain rfl := nil_of_mapM hnone' no_calls
    have hrest : Answered (speech' ++ others.flatten) := hspeech'.answered (ih hrestOut)
    have hids : (answers.map (·.1)).Perm (calls.map (·.1)) := by
      rw [ids_of_answerTexts hanswers, ids_of_callTexts hcalls]
      exact ids
    have hcalls_ne : calls ≠ [] := by
      intro hnil
      subst hnil
      exact calls_ne (List.map_eq_nil_iff.mp (ids_of_callTexts hcalls).symm)
    cases hspeech with
    | @calling message _ _ role_eq _ calls_eq =>
      rw [assistant] at role_eq
      show Answered (message :: (answers.map answerMessage ++ speech' ++ others.flatten))
      rw [List.append_assoc]
      refine .turn role_eq ?_ ?_ ?_ hrest
      · rw [calls_eq]
        exact hcalls_ne
      · intro message hmessage
        obtain ⟨answer, -, rfl⟩ := List.mem_map.mp hmessage
        rfl
      · rw [calls_eq, filterMap_answerMessage]
        exact hids
    | silent => exact absurd rfl hcalls_ne
    | plain => exact absurd rfl hcalls_ne

/-! ## 6. Requests -/

/-- The value that a block holds besides its strings: the input of a call, or an answer. -/
def value? : ContentBlock → Option Json
  | .toolUse _ _ input => some input
  | .toolResult _ content => some content
  | _ => none

theorem value?_imageOf? (item : Json) :
    value? ((ContentBlock.imageOf? item).getD (.raw item)) = none := by
  unfold ContentBlock.imageOf?
  cases item.objectField? "source" with
  | none => rfl
  | some source =>
    rw [Option.bind_some]
    split <;> rfl

theorem isText_of_value?_ofClaude {item value : Json} (h : item.isText = true)
    (hvalue : value? (ContentBlock.ofClaude item) = some value) : value.isText = true := by
  unfold ContentBlock.ofClaude at hvalue
  dsimp only at hvalue
  by_cases htext : item.stringField "type" = "text"
  · rw [if_pos htext] at hvalue
    cases hvalue
  by_cases himage : item.stringField "type" = "image"
  · rw [if_neg htext, if_pos himage] at hvalue
    rw [value?_imageOf?] at hvalue
    cases hvalue
  by_cases hcall : item.stringField "type" = "tool_use"
  · rw [if_neg htext, if_neg himage, if_pos hcall] at hvalue
    cases hvalue
    exact Json.isText_fieldD h rfl
  by_cases hanswer : item.stringField "type" = "tool_result"
  · rw [if_neg htext, if_neg himage, if_neg hcall, if_pos hanswer] at hvalue
    cases hvalue
    exact Json.isText_fieldD h rfl
  · rw [if_neg htext, if_neg himage, if_neg hcall, if_neg hanswer] at hvalue
    split at hvalue <;> cases hvalue

section

variable {blocks : List ContentBlock}

theorem exists_callTexts (h : ∀ block ∈ blocks, ∀ value, value? block = some value →
    value.isText = true) : ∃ texts, (blocks.filterMap call?).mapM callText = .ok texts := by
  refine mapM_eq_ok_of_forall fun call hcall => ?_
  obtain ⟨block, hblock, hcall⟩ := List.mem_filterMap.mp hcall
  cases block with
  | toolUse id name input =>
    cases hcall
    have htext := h _ hblock input rfl
    exact ⟨_, map_eq_ok_iff.mpr ⟨_, Json.dump_of_isText htext, rfl⟩⟩
  | _ => cases hcall

theorem exists_answerTexts (h : ∀ block ∈ blocks, ∀ value, value? block = some value →
    value.isText = true) : ∃ texts, (blocks.filterMap answer?).mapM answerText = .ok texts := by
  refine mapM_eq_ok_of_forall fun answer hanswer => ?_
  obtain ⟨block, hblock, hanswer⟩ := List.mem_filterMap.mp hanswer
  cases block with
  | toolResult id content =>
    cases hanswer
    have htext := h _ hblock content rfl
    cases content with
    | str text => exact ⟨_, rfl⟩
    | _ => exact ⟨_, map_eq_ok_iff.mpr ⟨_, Json.dump_of_isText htext, rfl⟩⟩
  | _ => cases hanswer

/-- Blocks of text come to messages. -/
theorem exists_messagesOfBlocks (h : ∀ block ∈ blocks, ∀ value, value? block = some value →
    value.isText = true) (role : Role) : ∃ out, messagesOfBlocks role blocks = .ok out := by
  obtain ⟨answers, hanswers⟩ := exists_answerTexts h
  obtain ⟨calls, hcalls⟩ := exists_callTexts h
  have hanswering := mapM_eq_map_mapM toolMessage_eq (blocks.filterMap answer?)
  have hlisted := mapM_eq_map_mapM toolCall_eq (blocks.filterMap call?)
  rw [hanswers] at hanswering
  rw [hcalls] at hlisted
  unfold messagesOfBlocks
  rw [hanswering, hlisted]
  by_cases hsilent : ((blocks.filterMap text?).isEmpty && (calls.map listedCall).isEmpty ||
      role == .tool) = true
  · exact ⟨_, if_pos hsilent⟩
  · exact ⟨_, if_neg hsilent⟩

end

/-- **A message of text comes to something**: only strings can fail. -/
theorem exists_messagesOfMessage {message : Json} (h : message.isText = true) :
    ∃ out, messagesOfMessage message = .ok out := by
  unfold messagesOfMessage
  dsimp only
  split
  · exact ⟨_, rfl⟩
  · rename_i items hcontent
    refine exists_messagesOfBlocks (fun block hblock value hvalue => ?_) _
    rw [Message.ofClaude, hcontent] at hblock
    obtain ⟨item, hitem, rfl⟩ := List.mem_map.mp hblock
    have hitems : message.arrayField? "content" = some items := by
      rw [Json.arrayField?, hcontent]
      rfl
    exact isText_of_value?_ofClaude (Json.isText_of_mem_arrayField? h hitems item hitem) hvalue
  · exact ⟨_, rfl⟩

theorem exists_messagesOfRequest {request : Json} (h : request.isText = true) :
    ∃ chat, messagesOfRequest request = .ok chat := by
  have hmessages : ∃ outs, ((request.arrayField? "messages").getD []).mapM messagesOfMessage =
      .ok outs := by
    refine mapM_eq_ok_of_forall fun message hmessage => ?_
    cases hfield : request.arrayField? "messages" with
    | none =>
      rw [hfield] at hmessage
      cases hmessage
    | some messages =>
      rw [hfield] at hmessage
      exact exists_messagesOfMessage (Json.isText_of_mem_arrayField? h hfield message hmessage)
  obtain ⟨outs, houts⟩ := hmessages
  exact ⟨_, bind_eq_ok_iff.mpr ⟨outs, houts, rfl⟩⟩

/-- The system prompt is one message at most, and it neither calls nor answers. -/
theorem speech_systemMessages (request : Json) : Speech .system [] (systemMessages request) := by
  unfold systemMessages
  split
  · dsimp only
    split
    · exact .silent
    · exact .plain rfl rfl
  · exact .silent

/-- **The chat of a conversation in pairs.** A request of text has a chat; and in the chat of any
    request whose conversation has its calls in pairs, the calls are answered at once, and calls and
    answers are those of the request, in their order. -/
theorem messagesOfRequest_keeps_turns (request : Json)
    (h : Paired ((request.arrayField? "messages").getD [])) :
    (request.isText = true → ∃ chat, messagesOfRequest request = .ok chat) ∧
      ∀ chat, messagesOfRequest request = .ok chat →
        Answered chat ∧ Keeps ((request.arrayField? "messages").getD []) chat := by
  refine ⟨exists_messagesOfRequest, fun chat hchat => ?_⟩
  obtain ⟨outs, houts, hchat⟩ := bind_eq_ok_iff.mp hchat
  cases hchat
  have hsystem := speech_systemMessages request
  have hkeeps := keeps_of_messagesOfMessage h.speaks houts
  refine ⟨hsystem.answered (h.answered houts), ?_, ?_⟩
  · rw [List.flatMap_append, hsystem.listedCalls_eq]
    exact hkeeps.calls
  · rw [List.filterMap_append, hsystem.no_answers]
    exact hkeeps.answers

/-- Two calls behind a thought, and their answers the other way round with a text between them. -/
theorem messagesOfRequest_keeps_turns_crossed :
    let calling : Json := .object [("role", .str "assistant"), ("content", .arr [
      .object [("type", .str "thinking"), ("thinking", .str "hm")],
      .object [("type", .str "tool_use"), ("id", .str "a"), ("name", .str "f"),
        ("input", .object [("x", .int 1)])],
      .object [("type", .str "tool_use"), ("id", .str "b"), ("name", .str "g")]])]
    let answering : Json := .object [("role", .str "user"), ("content", .arr [
      .object [("type", .str "tool_result"), ("tool_use_id", .str "b"), ("content", .str "two")],
      .object [("type", .str "text"), ("text", .str "and")],
      .object [("type", .str "tool_result"), ("tool_use_id", .str "a"), ("content", .int 1)]])]
    let closing : Json := .object [("role", .str "assistant"), ("content", .str "done")]
    let messages := [calling, answering, closing]
    let request : Json := .object [("messages", .arr messages), ("system", .str "be brief")]
    ∃ chat, messagesOfRequest request = .ok chat ∧ chat.length = 6 ∧ Answered chat ∧
      Keeps messages chat := by
  intro calling answering closing messages request
  have hpaired : Paired messages := by
    refine .turn rfl (by decide) rfl rfl rfl (by decide) ?_
    exact .plain (.inr rfl) rfl rfl .nil
  have hsix : (messagesOfRequest request).toOption.map (·.length) = some 6 := by decide +kernel
  obtain ⟨chat, hchat, hlength⟩ := exists_of_toOption_map hsix
  obtain ⟨hanswered, hkeeps⟩ := (messagesOfRequest_keeps_turns request hpaired).2 chat hchat
  exact ⟨chat, hchat, hlength, hanswered, hkeeps⟩

end ChatRelay.OpenAI
