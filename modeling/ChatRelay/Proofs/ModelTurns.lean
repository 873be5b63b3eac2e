import ChatRelay.Proofs.GeminiAnswers
import ChatRelay.Proofs.RequestRoundTrip

/-!
# Turns of the model, replayed

A Claude client sends the turns of a conversation back with every request. What a Gemini backend
said is then read as a Claude reply, kept by the client, and written as a content again. For parts
that a reply carries whole (`Replayable`) the content has the parts that the backend sent:
`requestOfClaude_replays_reply`.

One part is followed there and back (`Replayable.exists_block`), at any position, because the
position only shows in the id of a call and Gemini has no ids; the list of parts follows by
induction (`partsOfContent_replyBlocks`).
-/

namespace ChatRelay.Gemini

/-! ## 1. Parts -/

/-- **A part that is one thing**: a text, a thought with a signature or without, or a function call
    with arguments. -/
inductive Replayable : Json → Prop where
  | text {text : Bytes} (full : text ≠ []) : Replayable (.object [("text", .str text)])
  | thought {text : Bytes} {signature : Option Bytes} (full : text ≠ [])
      (signed : signature ≠ some []) :
      Replayable (.objectWith [("text", .str text), ("thought", .bool true)]
        [("thoughtSignature", signature.map .str)])
  | call (name : Bytes) {args : Json} (given : args ≠ .null) :
      Replayable (.object [("functionCall", .object [("name", .str name), ("args", args)])])

/-- The blocks that a reply has for the part at a position. -/
def replyBlocks (part : Json) (position : Nat) : List ContentBlock :=
  (replyTextBlock? part).toList ++ (replyCallBlock? part position).toList

theorem content_completionOf (reply : Json) (id : Bytes) :
    (completionOf reply id).content = (replyParts reply).flatMap fun p => replyBlocks p.1 p.2 := rfl

/-- **One part there and back**: it is one block of the reply, and the block is this part again. -/
theorem Replayable.exists_block {part : Json} (h : Replayable part) (position : Nat) :
    ∃ block, replyBlocks part position = [block] ∧
      ∀ names, partOfBlock? names (ContentBlock.ofClaude block.toClaude) = some part := by
  cases h with
  | @text text full =>
    have hnot_empty : text.isEmpty = false := List.isEmpty_eq_false_iff.mpr full
    refine ⟨.text text, ?_, fun names => ?_⟩
    · have htext : replyTextBlock? (textPart text) = some (.text text) := by
        show (if text.isEmpty then none else _) = _
        rw [hnot_empty]
        rfl
      show replyBlocks (textPart text) position = _
      rw [replyBlocks, htext]
      rfl
    · show (if text.isEmpty then none else some (textPart text)) = _
      rw [hnot_empty]
      rfl
  | @thought text signature full signed =>
    have hnot_empty : text.isEmpty = false := List.isEmpty_eq_false_iff.mpr full
    refine ⟨.thinking (.str text) signature, ?_, fun names => ?_⟩
    · have hthought : replyTextBlock? (thoughtPart (.str text) signature) =
          some (.thinking (.str text) signature) := by
        rw [replyTextBlock?, stringField_text_thoughtPart, boolField_thought_thoughtPart,
          signature?_thoughtPart _ signed, hnot_empty]
        rfl
      show replyBlocks (thoughtPart (.str text) signature) position = _
      rw [replyBlocks, hthought]
      cases signature <;> rfl
    · cases signature <;> rfl
  | @call name args given =>
    have hinput : args.isNull = false := by
      cases args with
      | null => exact absurd rfl given
      | _ => rfl
    refine ⟨.toolUse (toolUseId position) name args, rfl, fun names => ?_⟩
    rw [ofClaude_toClaude_toolUse _ _ hinput, partOfBlock?, ContentBlock.inputOrEmpty, hinput]
    rfl

/-- **Any list of parts there and back**, from any position on. -/
theorem partsOfContent_replyBlocks (names : Table Bytes Bytes) {parts : List Json}
    (h : ∀ part ∈ parts, Replayable part) (position : Nat) :
    partsOfContent names (.arr (((parts.zipIdx position).flatMap fun p =>
      replyBlocks p.1 p.2).map ContentBlock.toClaude)) = parts := by
  induction parts generalizing position with
  | nil => rfl
  | cons part parts ih =>
    obtain ⟨hpart, hparts⟩ := List.forall_mem_cons.mp h
    obtain ⟨block, hblock, hback⟩ := hpart.exists_block position
    rw [List.zipIdx_cons, List.flatMap_cons, hblock, List.singleton_append, List.map_cons,
      partsOfContent, List.filterMap_cons, hback names]
    exact congrArg (part :: ·) (ih hparts (position + 1))

/-! ## 2. Turns -/

theorem replyParts_eq_zipIdx (reply : Json) : replyParts reply = (partsOf reply).zipIdx := by
  unfold replyParts partsOf
  cases (reply.headField? "candidates").bind (·.objectField? "content") <;> rfl

theorem field?_content_responseToClaude (reply : Json) (id : Bytes) :
    (responseToClaude reply id).field? "content" =
      some (.arr (((partsOf reply).zipIdx.flatMap fun p => replyBlocks p.1 p.2).map
        ContentBlock.toClaude)) := by
  have hcontent := (completionOf reply id).field?_toClaude id "content"
  rw [content_completionOf, replyParts_eq_zipIdx] at hcontent
  exact hcontent

/-- **The turn of the model, replayed.** When the parts of a Gemini reply are each one thing, a
    request whose only message is of the assistant and has the content of the converted reply
    becomes a request with one content: it is of the model and has the parts of the reply. -/
theorem requestOfClaude_replays_reply {reply request message : Json} (id : Bytes)
    (hne : partsOf reply ≠ []) (hparts : ∀ part ∈ partsOf reply, Replayable part)
    (hrole : message.field? "role" = some (.str "assistant"))
    (hcontent : message.field? "content" = (responseToClaude reply id).field? "content")
    (hmessages : request.field? "messages" = some (.arr [message])) :
    ∃ converted, requestOfClaude request = .ok converted ∧
      converted.field? "contents" = some (.arr [.object [("role", .str "model"),
        ("parts", .arr (partsOf reply))]]) := by
  have hcontentOf (names : Table Bytes Bytes) : contentOfMessage? names message =
      some (.object [("role", .str "model"), ("parts", .arr (partsOf reply))]) := by
    have hassistant : message.stringField "role" = "assistant" := by
      rw [Json.stringField, Json.stringFieldD, hrole]
    obtain ⟨part, parts, heq⟩ := List.exists_cons_of_ne_nil hne
    have hback := partsOfContent_replyBlocks names hparts 0
    rw [contentOfMessage?, hassistant, hcontent, field?_content_responseToClaude,
      Option.getD_some, hback, heq]
    rfl
  have hmessage : message.isObject = true := by
    cases message with
    | obj fields => rfl
    | _ => cases hrole
  have hobjects : [message].filter Json.isObject = [message] := by
    rw [List.filter_cons_of_pos hmessage, List.filter_nil]
  have hcontents : contentsOfMessages [] [message] =
      [.object [("role", .str "model"), ("parts", .arr (partsOf reply))]] := by
    rw [contentsOfMessages, hcontentOf]
    rfl
  cases request with
  | obj fields =>
    have hfound : Table.find? fields "messages" = some (.arr [message]) := hmessages
    refine ⟨converted (.obj fields) _, ?_, field?_converted (.obj fields) _ "contents"⟩
    unfold requestOfClaude
    rw [Json.valueD_obj, hfound]
    show Except.ok (converted (.obj fields)
      (contentsOfMessages [] ([message].filter Json.isObject))) = _
    rw [hobjects, hcontents]
  | _ => cases hmessages

/-- A signed thought, a text and two calls. -/
theorem requestOfClaude_replays_reply_of_each_kind :
    let parts : List Json :=
      [.objectWith [("text", .str "hm"), ("thought", .bool true)]
          [("thoughtSignature", some (.str "s1"))],
        .object [("text", .str "let me see")],
        .object [("functionCall", .object [("name", .str "look"),
          ("args", .object [("at", .strings ["a", "b"])])])],
        .object [("functionCall", .object [("name", .str ""), ("args", .int 3)])]]
    let reply : Json := .object [("candidates", .arr [.object [("content",
      .object [("role", .str "model"), ("parts", .arr parts)])]])]
    let message : Json := .objectWith [("role", .str "assistant")]
      [("content", (responseToClaude reply "msg_1").field? "content")]
    ∃ converted, requestOfClaude (.object [("messages", .arr [message])]) = .ok converted ∧
      converted.field? "contents" = some (.arr [.object [("role", .str "model"),
        ("parts", .arr parts)]]) := by
  intro parts reply message
  have hne : partsOf reply ≠ [] := List.cons_ne_nil _ _
  have hparts : ∀ part ∈ partsOf reply, Replayable part := by
    refine List.forall_mem_cons.mpr ⟨@Replayable.thought "hm" (some "s1") ?_ ?_, ?_⟩
    · decide
    · decide
    refine List.forall_mem_cons.mpr ⟨@Replayable.text "let me see" ?_, ?_⟩
    · decide
    refine List.forall_mem_cons.mpr ⟨.call _ Json.noConfusion, ?_⟩
    exact List.forall_mem_cons.mpr ⟨.call _ Json.noConfusion, List.forall_mem_nil _⟩
  exact @requestOfClaude_replays_reply reply _ message "msg_1" hne hparts rfl rfl rfl

end ChatRelay.Gemini
