import Mathlib.Data.List.Nodup
import ChatRelay.Proofs.GeminiBlocks
import ChatRelay.Proofs.GeminiContents

/-!
# Tool turns of Gemini clients

A Gemini client names the function that it answers; the dialects of the upstreams name the call, by
an id. The converted calls get ids from the positions of their parts, and the answers keep the name
of the function. So calls and answers are paired by name, as they were before, and not by id.

* `Gemini.Named` -- each answer names a function that was called in the turn just before;
* `Gemini.Echoes` -- what a message makes of the calls and answers of its content;
* `Gemini.PairedByName` -- how calls and answers stand in converted messages;
* `Gemini.tool_turns_paired_by_name` -- for both upstreams.
-/

namespace ChatRelay.Gemini

open OpenAI (answerMessage listedCalls callsOf answersOf)

/-! ## 1. Turns -/

/-- **Answers by name**: the answers of a turn name distinct functions, each of them called in the
    turn just before; `called` are those that were called before the first turn. -/
inductive Named (calls answers : Json → List Bytes) : List Bytes → List Json → Prop where
  | nil {called : List Bytes} : Named calls answers called []
  | cons {called : List Bytes} {turn : Json} {turns : List Json}
      (distinct : (answers turn).Nodup) (known : answers turn ⊆ called)
      (rest : Named calls answers (calls turn) turns) : Named calls answers called (turn :: turns)

/-- The functions that a content calls. -/
def callNames (content : Json) : List Bytes :=
  (callsIn content).map (·.2.1)

/-- The functions that a content answers. -/
def answerNames (content : Json) : List Bytes :=
  (answersIn content).map (·.1)

/-- **Tool turns of a conversation**: calls and answers are in different contents, and the answers
    name functions that were called in the content just before. -/
structure Alternates (contents : List Json) : Prop where
  named : Named callNames answerNames [] contents
  apart : ∀ content ∈ contents, callsIn content = [] ∨ answersIn content = []

/-- How calls and answers are read off the messages of a dialect, and how calls get their ids. -/
structure Reading where
  /-- The id and name of each call. -/
  calls : Json → List (Bytes × Bytes)
  /-- What each answer says it answers. -/
  answers : Json → List Bytes
  /-- The id of the call at a position. -/
  id : Nat → Bytes

/-- Tool uses and tool results of Claude messages. -/
def claudeReading : Reading where
  calls message := (callsOf message).map fun call => (call.1, call.2.1)
  answers message := (answersOf message).map (·.1)
  id := toolUseId

/-- Tool calls and tool messages of a chat. -/
def chatReading : Reading where
  calls message := (listedCalls message).map fun call => (call.1, call.2.1)
  answers message := (answer? message).toList.map (·.1)
  id := callId

variable {r : Reading}

/-- **How calls and answers stand in the messages** that contents come to. -/
structure PairedByName (r : Reading) (contents messages : List Json) : Prop where
  /-- The calls are those of the contents, with ids from their positions. -/
  calls : messages.flatMap r.calls =
    (contents.flatMap callsIn).map fun call => (r.id call.1, call.2.1)
  /-- The answers are those of the contents, and name functions. -/
  answers : messages.flatMap r.answers = contents.flatMap answerNames
  /-- The answers of a message name distinct functions that the message just before calls. -/
  named : Named (fun message => (r.calls message).map (·.2)) r.answers [] messages
  /-- No two calls of a message have one id. -/
  ids : ∀ message ∈ messages, ((r.calls message).map (·.1)).Nodup
  /-- No two calls at all have one id exactly when all their positions differ. -/
  repeats : ((messages.flatMap r.calls).map (·.1)).Nodup ↔
    ((contents.flatMap callsIn).map (·.1)).Nodup

/-! ## 2. Contents and their messages -/

/-- The message of a content, if it has one, has its calls and its answers. -/
structure Echoes (r : Reading) (content : Json) (message : Option Json) : Prop where
  calls : message.toList.flatMap r.calls =
    (callsIn content).map fun call => (r.id call.1, call.2.1)
  answers : message.toList.flatMap r.answers = answerNames content

theorem Echoes.names {content : Json} {message : Option Json} (h : Echoes r content message) :
    (message.toList.flatMap r.calls).map (·.2) = callNames content := by
  rw [h.calls, List.map_map]
  rfl

theorem Named.weaken {calls answers : Json → List Bytes} {called called' : List Bytes}
    {turns : List Json} (h : Named calls answers called turns) (hsub : called ⊆ called') :
    Named calls answers called' turns := by
  cases h with
  | nil => exact .nil
  | cons distinct known rest => exact .cons distinct (List.Subset.trans known hsub) rest

/-- The parts of a content have distinct positions. -/
theorem pairwise_partsIn (content : Json) : (partsIn content).Pairwise (·.2 ≠ ·.2) := by
  unfold partsIn partsOf?
  split
  · exact .nil
  · exact .nil
  · rename_i parts _ _
    have hpositions : (parts.zipIdx.map (·.2)).Nodup := by
      rw [List.zipIdx_map_snd]
      exact List.nodup_range'
    exact (List.pairwise_map.mp hpositions).filter _

/-- So have its calls. -/
theorem nodup_positions (content : Json) : ((callsIn content).map (·.1)).Nodup := by
  have hposition {p : Json × Nat} {call : Nat × Bytes × Json} (h : callIn? p = some call) :
      call.1 = p.2 := by
    obtain ⟨function, -, rfl⟩ := Option.map_eq_some_iff.mp h
    rfl
  refine List.pairwise_map.mpr ((pairwise_partsIn content).filterMap callIn? ?_)
  intro p q hne call hcall call' hcall'
  rw [hposition hcall, hposition hcall']
  exact hne

section

variable {contents : List Json} {messages : List (Option Json)}

theorem calls_of_echoes (h : List.Forall₂ (Echoes r) contents messages) :
    (messages.filterMap id).flatMap r.calls =
      (contents.flatMap callsIn).map fun call => (r.id call.1, call.2.1) := by
  induction h with
  | nil => rfl
  | cons hfirst _ ih =>
    rw [filterMap_cons_eq_append, id_eq, List.flatMap_append, hfirst.calls, ih, List.flatMap_cons,
      List.map_append]

theorem answers_of_echoes (h : List.Forall₂ (Echoes r) contents messages) :
    (messages.filterMap id).flatMap r.answers = contents.flatMap answerNames := by
  induction h with
  | nil => rfl
  | cons hfirst _ ih =>
    rw [filterMap_cons_eq_append, id_eq, List.flatMap_append, hfirst.answers, ih, List.flatMap_cons]

/-- The pairing by name goes over from the contents to the messages. -/
theorem named_of_echoes (h : List.Forall₂ (Echoes r) contents messages) {called : List Bytes}
    (hnamed : Named callNames answerNames called contents) :
    Named (fun message => (r.calls message).map (·.2)) r.answers called
      (messages.filterMap id) := by
  induction h generalizing called with
  | nil => exact .nil
  | @cons content message contents messages hfirst _ ih =>
    cases hnamed with
    | cons distinct known rest =>
      have hrest := ih rest
      cases message with
      | none =>
        -- a content without a message calls nothing, so the next one answers nothing
        have hnone : callNames content = [] := hfirst.names.symm
        rw [hnone] at hrest
        exact hrest.weaken (List.nil_subset _)
      | some message =>
        have hnames := hfirst.names
        have hanswers := hfirst.answers
        rw [Option.toList_some, List.flatMap_singleton] at hnames hanswers
        rw [← hanswers] at distinct known
        rw [← hnames] at hrest
        exact .cons distinct known hrest

/-- The ids of calls by their positions. -/
theorem map_ids (calls : List (Nat × Bytes × Json)) :
    (calls.map fun call => (r.id call.1, call.2.1)).map (·.1) = (calls.map (·.1)).map r.id := by
  rw [List.map_map, List.map_map]
  rfl

theorem ids_of_echoes (hid : Function.Injective r.id)
    (h : List.Forall₂ (Echoes r) contents messages) :
    ∀ message ∈ messages.filterMap id, ((r.calls message).map (·.1)).Nodup := by
  induction h with
  | nil => exact List.forall_mem_nil _
  | @cons content message contents messages hfirst _ ih =>
    rw [filterMap_cons_eq_append]
    refine List.forall_mem_append.mpr ⟨?_, ih⟩
    cases message with
    | none => exact List.forall_mem_nil _
    | some message =>
      have hcalls := hfirst.calls
      rw [Option.toList_some, List.flatMap_singleton] at hcalls
      refine List.forall_mem_singleton.mpr ?_
      rw [hcalls, map_ids, List.nodup_map_iff hid]
      exact nodup_positions content

/-- **Messages that echo contents pair calls and answers by name.** -/
theorem pairedByName_of_echoes (hid : Function.Injective r.id)
    (h : List.Forall₂ (Echoes r) contents messages)
    (hnamed : Named callNames answerNames [] contents) :
    PairedByName r contents (messages.filterMap id) where
  calls := calls_of_echoes h
  answers := answers_of_echoes h
  named := named_of_echoes h hnamed
  ids := ids_of_echoes hid h
  repeats := by rw [calls_of_echoes h, map_ids, List.nodup_map_iff hid]

end

/-! ## 3. Claude messages -/

/-- The calls among blocks. -/
def callsOfBlocks (blocks : List Json) : List (Bytes × Bytes) :=
  ((blocks.map ContentBlock.ofClaude).filterMap OpenAI.call?).map fun call => (call.1, call.2.1)

/-- What the answers among blocks answer. -/
def answersOfBlocks (blocks : List Json) : List Bytes :=
  ((blocks.map ContentBlock.ofClaude).filterMap OpenAI.answer?).map (·.1)

theorem callsOfBlocks_append (xs ys : List Json) :
    callsOfBlocks (xs ++ ys) = callsOfBlocks xs ++ callsOfBlocks ys := by
  rw [callsOfBlocks, List.map_append, List.filterMap_append, List.map_append]
  rfl

theorem answersOfBlocks_append (xs ys : List Json) :
    answersOfBlocks (xs ++ ys) = answersOfBlocks xs ++ answersOfBlocks ys := by
  rw [answersOfBlocks, List.map_append, List.filterMap_append, List.map_append]
  rfl

/-- A text or a thought neither calls nor answers. -/
theorem quiet_textBlock (part : Json) :
    callsOfBlocks (textBlock? part).toList = [] ∧
      answersOfBlocks (textBlock? part).toList = [] := by
  unfold textBlock?
  dsimp only
  split
  · exact ⟨rfl, rfl⟩
  · split
    · cases signature? part <;> exact ⟨rfl, rfl⟩
    · exact ⟨rfl, rfl⟩

theorem quiet_imageBlock (part : Json) :
    callsOfBlocks (imageBlock? part).toList = [] ∧
      answersOfBlocks (imageBlock? part).toList = [] := by
  unfold imageBlock?
  cases part.objectField? "inlineData" <;> exact ⟨rfl, rfl⟩

theorem callsOfBlocks_part (p : Json × Nat) :
    callsOfBlocks (blocksOfPart p.1 p.2) =
      (callIn? p).toList.map fun call => (toolUseId call.1, call.2.1) := by
  have hcall : callsOfBlocks (toolUseBlock? p.1 p.2).toList =
      (callIn? p).toList.map fun call => (toolUseId call.1, call.2.1) := by
    unfold toolUseBlock? callIn?
    cases p.1.objectField? "functionCall" <;> rfl
  have hanswer : callsOfBlocks (toolResultBlock? p.1).toList = [] := by
    unfold toolResultBlock?
    cases p.1.objectField? "functionResponse" <;> rfl
  rw [blocksOfPart, callsOfBlocks_append, callsOfBlocks_append, callsOfBlocks_append,
    (quiet_textBlock p.1).1, (quiet_imageBlock p.1).1, hcall, hanswer, List.append_nil]
  rfl

theorem answersOfBlocks_part (p : Json × Nat) :
    answersOfBlocks (blocksOfPart p.1 p.2) =
      (p.1.objectField? "functionResponse").toList.map fun response => (answerIn response).1 := by
  have hcall : answersOfBlocks (toolUseBlock? p.1 p.2).toList = [] := by
    unfold toolUseBlock?
    cases p.1.objectField? "functionCall" <;> rfl
  have hanswer : answersOfBlocks (toolResultBlock? p.1).toList =
      (p.1.objectField? "functionResponse").toList.map fun response => (answerIn response).1 := by
    unfold toolResultBlock?
    cases p.1.objectField? "functionResponse" <;> rfl
  rw [blocksOfPart, answersOfBlocks_append, answersOfBlocks_append, answersOfBlocks_append,
    (quiet_textBlock p.1).2, (quiet_imageBlock p.1).2, hcall, hanswer]
  rfl

/-- The blocks of a content have its calls and its answers. -/
theorem readings_of_parts (parts : List (Json × Nat)) :
    callsOfBlocks (parts.flatMap fun p => blocksOfPart p.1 p.2) =
        (parts.filterMap callIn?).map (fun call => (toolUseId call.1, call.2.1)) ∧
      answersOfBlocks (parts.flatMap fun p => blocksOfPart p.1 p.2) =
        ((parts.filterMap fun p => p.1.objectField? "functionResponse").map answerIn).map
          (·.1) := by
  induction parts with
  | nil => exact ⟨rfl, rfl⟩
  | cons p parts ih =>
    obtain ⟨hcalls, hanswers⟩ := ih
    constructor
    · rw [List.flatMap_cons, callsOfBlocks_append, hcalls, callsOfBlocks_part]
      rw [List.filterMap_cons]
      cases callIn? p <;> rfl
    · rw [List.flatMap_cons, answersOfBlocks_append, hanswers, answersOfBlocks_part]
      rw [List.filterMap_cons]
      cases p.1.objectField? "functionResponse" <;> rfl

/-- **The Claude message of a content has its calls and its answers.** -/
theorem echoes_messageToClaude? (content : Json) :
    Echoes claudeReading content (messageToClaude? content) := by
  obtain ⟨hcalls, hanswers⟩ := readings_of_parts (partsIn content)
  unfold messageToClaude?
  cases hparts : partsOf? content with
  | none =>
    have hnone : partsIn content = [] := by rw [partsIn, hparts]; rfl
    constructor
    · rw [callsIn, hnone]
      rfl
    · rw [answerNames, answersIn, hnone]
      rfl
  | some parts =>
    have hin : partsIn content = parts := by rw [partsIn, hparts]; rfl
    rw [hin] at hcalls hanswers
    rw [Option.bind_some]
    cases hblocks : parts.flatMap fun p => blocksOfPart p.1 p.2 with
    | nil =>
      rw [hblocks] at hcalls hanswers
      constructor
      · rw [callsIn, hin]
        exact hcalls
      · rw [answerNames, answersIn, hin]
        exact hanswers
    | cons block blocks =>
      rw [hblocks] at hcalls hanswers
      constructor
      · rw [callsIn, hin]
        exact (List.flatMap_singleton ..).trans hcalls
      · rw [answerNames, answersIn, hin]
        exact (List.flatMap_singleton ..).trans hanswers

/-- A request of a Gemini client is converted for Claude. -/
theorem exists_requestToClaude {request : Json} (hobject : request.isObject = true)
    (model : Bytes) : ∃ out, requestToClaude request model = .ok out ∧
      out.arrayField? "messages" =
        some (((contentsOf request).map messageToClaude?).filterMap id) := by
  obtain ⟨value, hvalue, hcontents⟩ := valueD_contents hobject
  refine ⟨_, bind_eq_ok_iff.mpr ⟨value, hvalue, rfl⟩, ?_⟩
  rw [Json.arrayField?, Json.field?_objectWith rfl, ← hcontents, List.filterMap_map]
  rfl

/-! ## 4. Chat messages -/

/-- **The chat message of a content has its calls and its answers**, when the content has one answer
    at most, and no calls beside it. -/
theorem echoes_of_carries {content : Json} {message : Option Json}
    (h : Carries [content] message.toList) (hone : (answersIn content).length ≤ 1)
    (hapart : callsIn content = [] ∨ answersIn content = []) :
    Echoes chatReading content message := by
  have hcalls : unlessAnswered callsIn content = callsIn content := by
    rcases hapart with hnone | hnone
    · rw [unlessAnswered, hnone, ite_self]
    · exact unlessAnswered_of_nil callsIn hnone
  have hlisted := h.calls
  have hanswers := h.answers
  rw [List.flatMap_singleton, hcalls] at hlisted
  rw [List.flatMap_singleton, lastAnswer_of_length_le hone] at hanswers
  constructor
  · have hnames : (message.toList.flatMap listedCalls).map (fun call => (call.1, call.2.1)) =
        ((callsIn content).map chatCall).map fun call => (call.1, call.2.1) := by
      refine map_eq_of_mapM (fun call text htext => ?_) hlisted
      obtain ⟨arguments, -, rfl⟩ := map_eq_ok_iff.mp htext
      rfl
    rw [List.map_flatMap, List.map_map] at hnames
    exact hnames
  · have hnames : (message.toList.filterMap answer?).map (·.1) = answerNames content :=
      OpenAI.ids_of_answerTexts hanswers
    rw [← hnames]
    cases message with
    | none => rfl
    | some message =>
      show [message].flatMap _ = ([message].filterMap answer?).map (·.1)
      rw [List.flatMap_singleton, List.filterMap_cons]
      show ((answer? message).toList).map (·.1) = _
      cases answer? message <;> rfl

theorem echoes_of_forall₂ {contents : List Json} {messages : List (Option Json)}
    (h : List.Forall₂ (fun content message => Carries [content] message.toList) contents messages)
    (hone : ∀ content ∈ contents, (answersIn content).length ≤ 1)
    (hapart : ∀ content ∈ contents, callsIn content = [] ∨ answersIn content = []) :
    List.Forall₂ (Echoes chatReading) contents messages := by
  induction h with
  | nil => exact .nil
  | cons hfirst _ ih =>
    obtain ⟨hone, hones⟩ := List.forall_mem_cons.mp hone
    obtain ⟨hapart, haparts⟩ := List.forall_mem_cons.mp hapart
    exact .cons (echoes_of_carries hfirst hone hapart) (ih hones haparts)

theorem callId_injective : Function.Injective callId := fun _ _ h =>
  Bytes.ofNat_injective (List.append_cancel_left h)

/-! ## 5. Requests -/

/-- **Calls and answers stay paired by name.** For a request whose contents alternate between calls
    and answers that name functions called in the content just before, the messages for Claude pair
    them by name; and so does the chat, when the contents are text and each has one answer at
    most. -/
theorem tool_turns_paired_by_name {request : Json} (hobject : request.isObject = true)
    (halternates : Alternates (contentsOf request)) (model : Bytes) :
    (∃ out messages, requestToClaude request model = .ok out ∧
      out.arrayField? "messages" = some messages ∧
      PairedByName claudeReading (contentsOf request) messages) ∧
    (request.isText = true → (∀ content ∈ contentsOf request, (answersIn content).length ≤ 1) →
      ∃ out chat, requestToOpenai request model = .ok out ∧
        out.arrayField? "messages" = some (systemMessages request ++ chat) ∧
        PairedByName chatReading (contentsOf request) chat) := by
  constructor
  · obtain ⟨out, hout, hmessages⟩ := exists_requestToClaude hobject model
    refine ⟨out, _, hout, hmessages, pairedByName_of_echoes
      GeminiToClaude.toolUseId_injective ?_ halternates.named⟩
    exact List.forall₂_map_right_iff.mpr
      (List.forall₂_same.mpr fun content _ => echoes_messageToClaude? content)
  · intro htext hone
    obtain ⟨messages, hmessages, hcarries⟩ :=
      exists_mapM_messageToOpenai? (isText_of_mem_contentsOf htext)
    obtain ⟨out, hout, hchat⟩ := exists_requestToOpenai hobject hmessages model
    exact ⟨out, _, hout, hchat, pairedByName_of_echoes callId_injective
      (echoes_of_forall₂ hcarries hone halternates.apart) halternates.named⟩

/-- Two turns that call the same function, the first of them two functions at once. -/
theorem tool_turns_paired_by_name_of_two_turns :
    let asking : Json := .object [("parts", .arr [textPart "hi"])]
    let calling (names : List Bytes) : Json := .object [("role", .str "model"),
      ("parts", .arr (names.map fun name => callPart name (.obj [])))]
    let answering (name : Bytes) : Json := .object [("role", .str "user"), ("parts", .arr
      [.object [("functionResponse", .object [("name", .str name), ("response", .obj [])])]])]
    let contents := [asking, calling ["f", "g"], answering "g", calling ["g"], answering "g"]
    let request : Json := .object [("contents", .arr contents)]
    (∃ out messages, requestToClaude request "m" = .ok out ∧
      out.arrayField? "messages" = some messages ∧
      messages.flatMap claudeReading.answers = ["g", "g"] ∧
      PairedByName claudeReading contents messages) ∧
    ∃ out chat, requestToOpenai request "m" = .ok out ∧ out.arrayField? "messages" = some chat ∧
      chat.flatMap chatReading.answers = ["g", "g"] ∧ PairedByName chatReading contents chat := by
  intro asking calling answering contents request
  have hcontents : contentsOf request = contents := rfl
  have hsystem : systemMessages request = [] := rfl
  have halternates : Alternates (contentsOf request) := by
    refine ⟨?_, by decide +kernel⟩
    refine .cons (by decide +kernel) (by decide +kernel) ?_
    refine .cons (by decide +kernel) (by decide +kernel) ?_
    refine .cons (by decide +kernel) (by decide +kernel) ?_
    refine .cons (by decide +kernel) (by decide +kernel) ?_
    exact .cons (by decide +kernel) (by decide +kernel) .nil
  obtain ⟨hclaude, hchat⟩ :=
    tool_turns_paired_by_name (rfl : request.isObject = true) halternates "m"
  obtain ⟨out, messages, hout, hmessages, hpaired⟩ := hclaude
  obtain ⟨out', chat, hout', hmessages', hpaired'⟩ := hchat (by decide +kernel) (by decide +kernel)
  rw [hsystem, List.nil_append] at hmessages'
  rw [hcontents] at hpaired hpaired'
  refine ⟨⟨out, messages, hout, hmessages, ?_, hpaired⟩,
    out', chat, hout', hmessages', ?_, hpaired'⟩
  · rw [hpaired.answers]
    decide +kernel
  · rw [hpaired'.answers]
    decide +kernel

/-- With one function called in two turns, the ids of the calls repeat, and no answer has the id of
    a call; for Claude and for the chat. -/
theorem call_ids_repeat :
    let calling : Json := .object [("role", .str "model"), ("parts", .arr [callPart "f" (.obj [])])]
    let answering : Json := .object [("role", .str "user"), ("parts", .arr [.object
      [("functionResponse", .object [("name", .str "f"), ("response", .obj [])])]])]
    let contents := [calling, answering, calling, answering]
    let request : Json := .object [("contents", .arr contents)]
    (Alternates contents ∧ ∀ content ∈ contents, (answersIn content).length ≤ 1) ∧
      (∃ out messages, requestToClaude request "m" = .ok out ∧
        out.arrayField? "messages" = some messages ∧
        (messages.flatMap claudeReading.calls).map (·.1) = [toolUseId 0, toolUseId 0] ∧
        messages.flatMap claudeReading.answers = ["f", "f"]) ∧
      ∃ out chat, requestToOpenai request "m" = .ok out ∧ out.arrayField? "messages" = some chat ∧
        (chat.flatMap chatReading.calls).map (·.1) = [callId 0, callId 0] ∧
        chat.flatMap chatReading.answers = ["f", "f"] := by
  intro calling answering contents request
  have halternates : Alternates contents := by
    refine ⟨?_, by decide +kernel⟩
    refine .cons (by decide +kernel) (by decide +kernel) ?_
    refine .cons (by decide +kernel) (by decide +kernel) ?_
    refine .cons (by decide +kernel) (by decide +kernel) ?_
    exact .cons (by decide +kernel) (by decide +kernel) .nil
  obtain ⟨out, hout, hmessages⟩ := exists_requestToClaude (rfl : request.isObject = true) "m"
  have hchat : (requestToOpenai request "m").toOption.map (·.arrayField? "messages") =
      some (some [
        speakingMessage calling [(callId 0, Bytes.ofString "f", Bytes.ofString "\x7b\x7d")],
        answerMessage (Bytes.ofString "f", Bytes.ofString "\x7b\x7d"),
        speakingMessage calling [(callId 0, Bytes.ofString "f", Bytes.ofString "\x7b\x7d")],
        answerMessage (Bytes.ofString "f", Bytes.ofString "\x7b\x7d")]) := by
    decide +kernel
  obtain ⟨out', hout', hchat⟩ := exists_of_toOption_map hchat
  refine ⟨⟨halternates, by decide +kernel⟩, ?_, ?_⟩
  · exact ⟨out, _, hout, hmessages, by decide +kernel, by decide +kernel⟩
  · exact ⟨out', _, hout', hchat, by decide +kernel, by decide +kernel⟩

end ChatRelay.Gemini
