import ChatRelay.Proofs.Answers
import ChatRelay.Proofs.TextStates

/-!
# Answers in chunks

A chat completion may come as a whole or in chunks. However it is cut (`ChatAnswer.CutInto`), the
streams for Claude and for Gemini clients deliver what the converters of the whole completion make
of it: the same text, the same calls in some order, the same finish reason.

* `ClaudeAgrees`, `GeminiAgrees` -- what that means for the two kinds of clients.
-/

namespace ChatRelay

open OpenAI (contentOf piecesOf reasonOf)
open PendingCall

/-! ## 1. Cuts -/

/-- **The chunks make up the answer.** The texts of the chunks are its text. Each call has an index
    of its own, and the pieces with this index make it up in their order; where they stand among the
    other pieces, and in which chunks, does not matter. One chunk, as a rule the last one, has the
    finish reason. -/
structure ChatAnswer.CutInto (a : ChatAnswer) (chunks : List Json) : Prop where
  text : chunks.flatMap contentOf = a.text
  calls : ∃ placed : List (Int × PendingCall),
    placed.map (·.2) = a.calls ∧ (placed.map (·.1)).Nodup ∧
      (∀ piece ∈ chunks.flatMap piecesOf,
        piece.isObject = true ∧ indexOf piece ∈ placed.map (·.1)) ∧
      ∀ e ∈ placed, e.2.CutInto ((chunks.flatMap piecesOf).filter (indexOf · = e.1))
  reason : (chunks.map reasonOf).filter (!·.isEmpty) = [a.reason]

/-- The calls that the chunks deliver are those of the answer. -/
theorem ChatAnswer.CutInto.gathered_perm {a : ChatAnswer} {chunks : List Json}
    (h : a.CutInto chunks) (hproper : a.Proper) :
    ((gathered [] (chunks.map piecesOf)).map blockOf).Perm (a.calls.map wholeBlock) := by
  obtain ⟨placed, hcalls, hdistinct, hpieces, hcut⟩ := h.calls
  have hflat : (chunks.map piecesOf).flatten = chunks.flatMap piecesOf := rfl
  have hperm := PendingCall.gathered_perm hdistinct
    (fun e he => hproper.calls e.2 (hcalls ▸ List.mem_map_of_mem he))
    (fun pieces hps piece hp => hpieces piece (hflat ▸ List.mem_flatten.mpr ⟨pieces, hps, hp⟩))
    (by rwa [hflat])
  rw [← hcalls, List.map_map]
  exact hperm

/-! ## 2. Streams -/

/-- The parts that Gemini clients are sent for tool calls. -/
theorem map_partOf_eq (calls : List (PendingCall × Json)) :
    calls.map OpenAIToGemini.partOf = (calls.map blockOf).filterMap Gemini.partOfReplyBlock? := by
  rw [List.filterMap_map]
  exact (congrFun List.filterMap_eq_map calls).symm

theorem map_wholePart_eq (calls : List PendingCall) :
    calls.map wholePart = (calls.map wholeBlock).filterMap Gemini.partOfReplyBlock? := by
  rw [List.filterMap_map]
  exact (congrFun List.filterMap_eq_map calls).symm

theorem flatMap_reasonsFor (reasons : List Bytes) :
    reasons.flatMap OpenAIToGemini.reasonsFor =
      (reasons.filter (!·.isEmpty)).map fun r => .str (StopReason.openaiToGemini r) := by
  induction reasons with
  | nil => rfl
  | cons reason reasons ih =>
    rw [List.flatMap_cons, ih]
    cases reason <;> rfl

/-- **The stream for Claude clients agrees with the whole reply**: it succeeds, its texts make up
    the text of the answer, and it brings the calls of the reply, each once and as a whole. -/
def ClaudeAgrees (reply : Json) (text : Bytes) (lines : List Bytes) : Prop :=
  ∃ fed, (Transcoder.openaiToClaude {}).feed lines = .ok fed ∧
    ∃ last, fed.state.onEnd = .ok last ∧
      ∃ events, events.mapM ClaudeEvent.render = .ok (fed.events ++ last.events) ∧
        ClaudeEvent.textOf events = text ∧ ClaudeEvent.CallsWhole events ∧
          ∀ id, (ClaudeEvent.callBlocks events).Perm
            (toolUsesOf (OpenAI.completionToClaude reply id))

/-- **The stream for Gemini clients agrees with the whole response**: it succeeds, its texts make up
    the text of the answer, and it brings the function calls and the finish reason of the
    response. -/
def GeminiAgrees (reply : Json) (text : Bytes) (lines : List Bytes) : Prop :=
  ∃ fed, (Transcoder.openaiToGemini {}).feed lines = .ok fed ∧
    ∃ last, fed.state.onEnd = .ok last ∧
      ∃ events, events.mapM GeminiChunk.render = .ok (fed.events ++ last.events) ∧
        GeminiChunk.textIn events = text ∧
          (GeminiChunk.callsIn events).Perm
            ((Gemini.partsOf (Gemini.responseOfOpenai reply)).filter Gemini.isCall) ∧
          ∃ reason, Gemini.finishReason? (Gemini.responseOfOpenai reply) = some reason ∧
            GeminiChunk.reasonsIn events = [reason]

variable {a : ChatAnswer} {reply : Json} {lines : List Bytes}

theorem claudeAgrees (hreply : a.Of reply) (hproper : a.Proper)
    (hlines : ∀ line ∈ lines, ¬ Chunk.Reports line) (hcut : a.CutInto (Chunk.objects lines)) :
    ClaudeAgrees reply a.text lines := by
  have htext := (OpenAIToClaude.keepsText.overChunks OpenAIToClaude.isText_fresh
    (Chunk.isText_of_mem_objects lines)).events
  obtain ⟨fed, hfed, last, hlast, hwritten⟩ :=
    Transcoder.exists_written Transcoder.typed_openaiToClaude
      (fun _ _ he => ClaudeEvent.exists_render (OpenAIToClaude.isText_of_mem_onEnd he)) hlines
      fun e he => ClaudeEvent.exists_render (htext e he)
  have hgrammar := OpenAIToClaude.grammar_wholeEvents lines
  refine ⟨fed, hfed, last, hlast, _, hwritten, hgrammar.text.trans hcut.text, hgrammar.callsWhole,
    fun id => ?_⟩
  rw [ChatAnswer.toolUsesOf_completionToClaude hreply hproper id,
    OpenAIToClaude.callBlocks_wholeEvents]
  exact hcut.gathered_perm hproper

theorem geminiAgrees (hreply : a.Of reply) (hproper : a.Proper)
    (hlines : ∀ line ∈ lines, ¬ Chunk.Reports line) (hcut : a.CutInto (Chunk.objects lines)) :
    GeminiAgrees reply a.text lines := by
  have htext := (OpenAIToGemini.keepsText.overChunks OpenAIToGemini.isText_fresh
    (Chunk.isText_of_mem_objects lines)).events
  obtain ⟨fed, hfed, last, hlast, hwritten⟩ :=
    Transcoder.exists_written Transcoder.typed_openaiToGemini
      (fun _ _ he => absurd he List.not_mem_nil) hlines
      fun e he => GeminiChunk.exists_render (htext e he)
  have hall := OpenAIToGemini.says_overChunks (s := {}) (List.forall_mem_nil _)
    (Chunk.objects lines)
  have hperm := (hcut.gathered_perm hproper).filterMap Gemini.partOfReplyBlock?
  rw [← map_partOf_eq, ← map_wholePart_eq] at hperm
  refine ⟨fed, hfed, last, hlast, _, hwritten, ?_, ?_, _,
    ChatAnswer.finishReason?_responseOfOpenai hreply hproper, ?_⟩
  all_goals rw [Step.wholeEvents]
  all_goals dsimp only [OpenAIToGemini.onEnd]
  all_goals rw [List.append_nil]
  · exact hall.text.trans hcut.text
  · rw [hall.calls, ChatAnswer.calls_responseOfOpenai hreply hproper]
    exact hperm
  · rw [hall.reasons, flatMap_reasonsFor, hcut.reason]
    rfl

/-- **A streamed answer agrees with the whole one**, however it is cut. -/
theorem streamed_answer_agrees (hreply : a.Of reply) (hproper : a.Proper)
    (hlines : ∀ line ∈ lines, ¬ Chunk.Reports line) (hcut : a.CutInto (Chunk.objects lines)) :
    ClaudeAgrees reply a.text lines ∧ GeminiAgrees reply a.text lines :=
  ⟨claudeAgrees hreply hproper hlines hcut, geminiAgrees hreply hproper hlines hcut⟩

/-- A call in three pieces between the two halves of a text. Its object ends within the second
    piece, and the third one brings a blank when the call has been delivered. -/
theorem streamed_answer_agrees_late_blank :
    let lines : List Bytes :=
      [Bytes.ofString
          ("data: \x7b\"choices\":[\x7b\"delta\":\x7b\"content\":\"a\",\"tool_calls\":" ++
          "[\x7b\"index\":3,\"id\":\"c\",\"function\":\x7b\"name\":\"f\"," ++
          "\"arguments\":\"\x7b\\\"x\\\":\"\x7d\x7d]\x7d\x7d]\x7d"),
        Bytes.ofString
          ("data: \x7b\"choices\":[\x7b\"delta\":\x7b\"content\":\"b\",\"tool_calls\":" ++
          "[\x7b\"index\":3,\"function\":\x7b\"arguments\":\"1\x7d \"\x7d\x7d]\x7d\x7d]\x7d"),
        Bytes.ofString ("data: \x7b\"choices\":[\x7b\"delta\":\x7b\"tool_calls\":" ++
          "[\x7b\"index\":3,\"function\":\x7b\"arguments\":\" \"\x7d\x7d]\x7d," ++
          "\"finish_reason\":\"tool_calls\"\x7d]\x7d")]
    let call : Json := .object
      [("id", .str "c"), ("function", .object
        [("name", .str "f"), ("arguments", .str (Bytes.ofString "\x7b\"x\":1\x7d  "))])]
    let reply : Json := .object [("choices", .arr [.object
      [("message", .object [("content", .str "ab"), ("tool_calls", .arr [call])]),
        ("finish_reason", .str "tool_calls")]])]
    ClaudeAgrees reply "ab" lines ∧ GeminiAgrees reply "ab" lines := by
  intro lines call reply
  let placed : List (Int × PendingCall) := [(3, ofPiece call)]
  have hcut : (Chunk.objects lines).flatMap contentOf = Bytes.ofString "ab" ∧
      (∀ piece ∈ (Chunk.objects lines).flatMap piecesOf,
        piece.isObject = true ∧ indexOf piece ∈ placed.map (·.1)) ∧
      (∀ e ∈ placed, e.2.CutInto
        (((Chunk.objects lines).flatMap piecesOf).filter (indexOf · = e.1))) ∧
      ((Chunk.objects lines).map reasonOf).filter (!·.isEmpty) = [Bytes.ofString "tool_calls"] ∧
      ∀ line ∈ lines, (Chunk.ofLine line).data?.isSome = true := by decide +kernel
  obtain ⟨htext, hpieces, hplaced, hreason, hdata⟩ := hcut
  let a : ChatAnswer := { text := "ab", calls := [ofPiece call], reason := "tool_calls" }
  have hreply : a.Of reply := ⟨_, _, rfl, rfl, rfl, rfl, rfl⟩
  have hcall : (ofPiece call).Proper :=
    ⟨by decide +kernel, by decide +kernel, [("x", .int 1)], by decide +kernel⟩
  have hproper : a.Proper := ⟨List.forall_mem_singleton.mpr hcall, by decide⟩
  have hcalls : a.CutInto (Chunk.objects lines) :=
    ⟨htext, ⟨placed, rfl, List.pairwise_singleton _ _, hpieces, hplaced⟩, hreason⟩
  have hlines : ∀ line ∈ lines, ¬ Chunk.Reports line :=
    fun line hl => Chunk.not_reports_of_data? (hdata line hl)
  exact streamed_answer_agrees hreply hproper hlines hcalls

end ChatRelay
