import ChatRelay.Proofs.Chunks
import ChatRelay.Proofs.Gathering
import ChatRelay.Proofs.Writing

/-!
# A chat completion stream for Gemini clients

What a Gemini client reads in the chunks that it is sent -- the parts of candidates and the finish
reasons -- is what the chunks of the backend say: their texts, the calls that their pieces complete,
and their finish reasons (`says_overChunks`). What it is sent for a chunk is text while the calls
held back are (`isText_onChunk`).
-/

namespace ChatRelay

/-! ## 1. What a client reads -/

namespace GeminiChunk

/-- The parts in chunks. -/
def partsIn (events : List GeminiChunk) : List Json :=
  events.flatMap fun e => Gemini.partsOf e.toJson

/-- The texts of the parts, joined. -/
def textIn (events : List GeminiChunk) : Bytes :=
  (partsIn events).flatMap (·.stringField "text")

/-- The parts that are function calls. -/
def callsIn (events : List GeminiChunk) : List Json :=
  (partsIn events).filter Gemini.isCall

/-- The finish reasons in chunks. -/
def reasonsIn (events : List GeminiChunk) : List Json :=
  events.filterMap fun e => Gemini.finishReason? e.toJson

/-- **What chunks say**: a text, calls and finish reasons. -/
structure Says (events : List GeminiChunk) (text : Bytes) (calls reasons : List Json) : Prop where
  text : textIn events = text
  calls : callsIn events = calls
  reasons : reasonsIn events = reasons

theorem says_nil : Says [] [] [] [] := ⟨rfl, rfl, rfl⟩

theorem Says.append {xs ys : List GeminiChunk} {text text' t : Bytes}
    {calls calls' c reasons reasons' r : List Json} (hx : Says xs text calls reasons)
    (hy : Says ys text' calls' reasons') (ht : text ++ text' = t) (hc : calls ++ calls' = c)
    (hr : reasons ++ reasons' = r) : Says (xs ++ ys) t c r where
  text := by
    rw [← ht, ← hx.text, ← hy.text, textIn, partsIn, List.flatMap_append, List.flatMap_append]
    rfl
  calls := by
    rw [← hc, ← hx.calls, ← hy.calls, callsIn, partsIn, List.flatMap_append, List.filter_append]
    rfl
  reasons := by
    rw [← hr, ← hx.reasons, ← hy.reasons]
    exact List.filterMap_append

end GeminiChunk

/-! ## 2. What chunks of the backend bring -/

namespace OpenAIToGemini

open GeminiChunk
open OpenAI (contentOf piecesOf reasonOf)
open PendingCall

/-- The part of a call that is delivered. -/
def partOf (d : PendingCall × Json) : Json :=
  Gemini.callPart d.1.name d.2

/-- What a client reads for a finish reason of the backend, which may be empty. -/
def reasonsFor (reason : Bytes) : List Json :=
  if reason.isEmpty then [] else [.str (StopReason.openaiToGemini reason)]

variable {s : State}

theorem says_addText (piece : Bytes) (s : State) : Says (addText piece s).events piece [] [] := by
  cases piece with
  | nil => exact says_nil
  | cons b rest =>
    refine ⟨?_, rfl, rfl⟩
    show (b :: rest) ++ [] = b :: rest
    exact List.append_nil _

theorem says_calls (calls : List (PendingCall × Json)) :
    Says (calls.map fun c => .part (Gemini.callPart c.1.name c.2)) [] (calls.map partOf) [] := by
  induction calls with
  | nil => exact says_nil
  | cons d calls ih =>
    have hone : Says [.part (Gemini.callPart d.1.name d.2)] [] [partOf d] [] := ⟨rfl, rfl, rfl⟩
    exact hone.append ih rfl rfl rfl

theorem says_finish (reason : Bytes) (usage : Option Usage) (s : State) :
    Says (finish reason usage s).events [] [] (reasonsFor reason) := by
  unfold finish reasonsFor
  split
  · exact says_nil
  · cases usage <;> exact ⟨rfl, rfl, rfl⟩

theorem calls_finish (reason : Bytes) (usage : Option Usage) (s : State) :
    (finish reason usage s).state.calls = s.calls := by
  unfold finish
  split <;> rfl

/-- A chunk gathers its pieces, and nothing else. -/
theorem calls_onChunk (hs : Settled s.calls) (chunk : Json) :
    (onChunk s chunk).state.calls = incomplete (addPieces s.calls (piecesOf chunk)) := by
  have hnone : s.calls = incomplete (addPieces s.calls []) := hs.incomplete.symm
  unfold onChunk piecesOf OpenAI.deltaOf?
  cases chunk.headField? "choices" with
  | none => exact hnone
  | some choice =>
    rw [Option.bind_some]
    dsimp only
    rw [Step.state_andThen, calls_finish]
    cases choice.objectField? "delta" with
    | none => exact hnone
    | some delta =>
      dsimp only
      rw [addDelta, Step.state_andThen]
      cases delta.arrayField? "tool_calls" with
      | none => exact hnone
      | some pieces => rfl

theorem noCalls_of_settled (hs : Settled s.calls) :
    (completed (addPieces s.calls [])).map partOf = [] := by
  show (completed s.calls).map partOf = []
  rw [hs.completed]
  rfl

theorem says_addDelta (hs : Settled s.calls) (delta : Json) :
    Says (addDelta delta s).events (delta.stringField "content")
      ((completed (addPieces s.calls ((delta.arrayField? "tool_calls").getD []))).map partOf)
      [] := by
  have htext := says_addText (delta.stringField "content") s
  rw [addDelta, Step.events_andThen]
  cases delta.arrayField? "tool_calls" with
  | none =>
    rw [Option.getD_none, noCalls_of_settled hs]
    exact htext.append says_nil (List.append_nil _) rfl rfl
  | some pieces => exact htext.append (says_calls _) (List.append_nil _) rfl rfl

/-- **What a chunk of the backend brings**: its text, the calls that its pieces complete, and its
    finish reason. -/
theorem says_onChunk (hs : Settled s.calls) (chunk : Json) :
    Says (onChunk s chunk).events (contentOf chunk)
      ((completed (addPieces s.calls (piecesOf chunk))).map partOf)
      (reasonsFor (reasonOf chunk)) := by
  unfold onChunk contentOf piecesOf reasonOf OpenAI.deltaOf?
  cases chunk.headField? "choices" with
  | none =>
    rw [Option.bind_none]
    dsimp only
    rw [noCalls_of_settled hs]
    cases chunk.objectField? "usage" with
    | none => exact says_nil
    | some u => exact ⟨rfl, rfl, rfl⟩
  | some choice =>
    rw [Option.bind_some]
    dsimp only
    rw [Step.events_andThen]
    cases choice.objectField? "delta" with
    | none =>
      dsimp only
      rw [noCalls_of_settled hs]
      exact says_finish _ _ s
    | some delta =>
      exact (says_addDelta hs delta).append (says_finish _ _ _) (List.append_nil _)
        (List.append_nil _) rfl

theorem says_overChunks (hs : Settled s.calls) (chunks : List Json) :
    Says (Step.overChunks onChunk s chunks).events (chunks.flatMap contentOf)
      ((gathered s.calls (chunks.map piecesOf)).map partOf)
      ((chunks.map reasonOf).flatMap reasonsFor) := by
  induction chunks generalizing s with
  | nil => exact says_nil
  | cons chunk chunks ih =>
    have hstate := calls_onChunk hs chunk
    have hnext : Settled (onChunk s chunk).state.calls := by
      rw [hstate]
      exact settled_incomplete _
    refine (says_onChunk hs chunk).append (ih hnext) rfl ?_ rfl
    rw [hstate, ← List.map_append]
    rfl

/-! ## 3. Texts -/

theorem isText_addText {piece : Bytes} (h : Utf8.valid piece = true) (s : State) :
    ∀ e ∈ (addText piece s).events, e.isText = true := by
  cases piece with
  | nil => exact List.forall_mem_nil _
  | cons b rest =>
    exact List.forall_mem_singleton.mpr (Gemini.isText_textPart h)

theorem isText_addCalls {pieces : List Json} (hs : AreText s.calls)
    (hpieces : ∀ piece ∈ pieces, piece.isText = true) :
    ∀ e ∈ (addCalls pieces s).events, e.isText = true := by
  intro e he
  obtain ⟨d, hd, rfl⟩ := List.mem_map.mp he
  obtain ⟨-, hname, hargs⟩ := (hs.addPieces hpieces).completed d hd
  exact Gemini.isText_callPart hname hargs

theorem isText_finish (reason : Bytes) (usage : Option Usage) (s : State) :
    ∀ e ∈ (finish reason usage s).events, e.isText = true := by
  unfold finish
  split
  · exact List.forall_mem_nil _
  · refine List.forall_mem_singleton.mpr ?_
    show Utf8.valid (StopReason.openaiToGemini reason) = true
    unfold StopReason.openaiToGemini
    split
    · rfl
    · split <;> rfl

theorem isText_addDelta (hs : AreText s.calls) {delta : Json} (h : delta.isText = true) :
    ∀ e ∈ (addDelta delta s).events, e.isText = true := by
  refine List.forall_mem_append.mpr ⟨isText_addText (Json.valid_stringField h) s, ?_⟩
  cases hpieces : delta.arrayField? "tool_calls" with
  | none => exact List.forall_mem_nil _
  | some pieces => exact isText_addCalls hs (Json.isText_of_mem_arrayField? h hpieces)

/-- The chunks for a chunk of text can be written. -/
theorem isText_onChunk (hs : AreText s.calls) {chunk : Json} (h : chunk.isText = true) :
    ∀ e ∈ (onChunk s chunk).events, e.isText = true := by
  unfold onChunk
  cases hchoice : chunk.headField? "choices" with
  | none =>
    cases chunk.objectField? "usage" with
    | none => exact List.forall_mem_nil _
    | some u => exact List.forall_mem_singleton.mpr rfl
  | some choice =>
    refine List.forall_mem_append.mpr ⟨?_, isText_finish _ _ _⟩
    cases hdelta : choice.objectField? "delta" with
    | none => exact List.forall_mem_nil _
    | some delta =>
      exact isText_addDelta hs (Json.isText_objectField? (Json.isText_headField? h hchoice) hdelta)

end OpenAIToGemini

end ChatRelay
