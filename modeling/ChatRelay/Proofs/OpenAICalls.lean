import ChatRelay.Proofs.Gathering
import ChatRelay.Proofs.OpenAIBlocks

/-!
# Tool calls of a chat completion stream for Claude clients

The tool calls that a Claude client puts together are those that the pieces of the chunks complete
(`callBlocks_overChunks`). The events of a chunk are text while the calls held back are
(`isText_onChunk`).
-/

namespace ChatRelay.OpenAIToClaude

open ClaudeEvent
open OpenAI (contentOf piecesOf)
open PendingCall

/-! ## 1. Calls -/

theorem calls_closeText (advance : Bool) (s : State) :
    (closeText advance s).state.calls = s.calls := by
  unfold closeText
  split <;> rfl

theorem calls_addText (piece : Bytes) (s : State) : (addText piece s).state.calls = s.calls := by
  unfold addText
  split <;> rfl

theorem calls_deliverCalls (calls : List (PendingCall × Json)) (s : State) :
    (deliverCalls calls s).state.calls = s.calls := by
  induction calls generalizing s with
  | nil => rfl
  | cons c calls ih => exact ih (deliverCall c.1 c.2 s).state

theorem calls_finish (reason : Bytes) (s : State) : (finish reason s).state.calls = s.calls := by
  unfold finish
  split
  · rfl
  · rw [Step.state_andThen]
    split
    · exact calls_closeText false s
    · exact calls_closeText false s

theorem callBlocks_closeText (advance : Bool) (s : State) :
    callBlocks (closeText advance s).events = [] := by
  unfold closeText
  split <;> rfl

theorem callBlocks_addText (piece : Bytes) (s : State) :
    callBlocks (addText piece s).events = [] := by
  unfold addText
  split
  · rfl
  · cases s.textOpen <;> rfl

theorem callBlocks_deliverCalls (calls : List (PendingCall × Json)) (s : State) :
    callBlocks (deliverCalls calls s).events = calls.map blockOf := by
  induction calls generalizing s with
  | nil => rfl
  | cons c calls ih => exact congrArg (blockOf c :: ·) (ih (deliverCall c.1 c.2 s).state)

theorem callBlocks_finish (reason : Bytes) (s : State) :
    callBlocks (finish reason s).events = [] := by
  unfold finish
  split
  · rfl
  · rw [Step.events_andThen, callBlocks_append (delivers_closeText false s).callsWhole,
      callBlocks_closeText]
    split <;> rfl

/-- The pieces of a step: the state gathers them, and the events are the calls they complete. -/
structure Gathers (s : State) (pieces : List Json) (step : Step State ClaudeEvent) : Prop where
  state : step.state.calls = incomplete (addPieces s.calls pieces)
  events : callBlocks step.events = (completed (addPieces s.calls pieces)).map blockOf

variable {s : State}

/-- A step without pieces. -/
theorem gathers_nil (hs : Settled s.calls) {step : Step State ClaudeEvent}
    (hstate : step.state.calls = s.calls) (hevents : callBlocks step.events = []) :
    Gathers s [] step where
  state := hstate.trans hs.incomplete.symm
  events := by
    rw [hevents]
    show [] = (completed s.calls).map blockOf
    rw [hs.completed]
    rfl

theorem gathers_addCalls (pieces : List Json) (s : State) :
    Gathers s pieces (addCalls pieces s) := by
  have hcalls := calls_closeText true s
  constructor
  · rw [addCalls, Step.state_andThen, calls_deliverCalls]
    show incomplete (addPieces (closeText true s).state.calls pieces) = _
    rw [hcalls]
  · rw [addCalls, Step.events_andThen, callBlocks_append (delivers_closeText true s).callsWhole,
      callBlocks_closeText, callBlocks_deliverCalls, hcalls]
    rfl

theorem gathers_addDelta (hs : Settled s.calls) (delta : Json) :
    Gathers s ((delta.arrayField? "tool_calls").getD []) (addDelta delta s) := by
  have hcalls := calls_addText (delta.stringField "content") s
  have hwhole := (delivers_addText (delta.stringField "content") s).callsWhole
  cases hpieces : delta.arrayField? "tool_calls" with
  | none =>
    refine gathers_nil hs ?_ ?_
    · rw [addDelta, Step.state_andThen, hpieces]
      exact hcalls
    · rw [addDelta, Step.events_andThen, hpieces, callBlocks_append hwhole, callBlocks_addText]
      rfl
  | some pieces =>
    have h := gathers_addCalls pieces (addText (delta.stringField "content") s).state
    constructor
    · rw [addDelta, Step.state_andThen, hpieces, Option.getD_some]
      exact h.state.trans (by rw [hcalls])
    · rw [addDelta, Step.events_andThen, hpieces, Option.getD_some, callBlocks_append hwhole,
        callBlocks_addText]
      exact h.events.trans (by rw [hcalls])

/-- **A chunk gathers its pieces**, whatever else it brings. -/
theorem gathers_onChunk (hs : Settled s.calls) (chunk : Json) :
    Gathers s (piecesOf chunk) (onChunk s chunk) := by
  unfold onChunk piecesOf OpenAI.deltaOf?
  cases chunk.headField? "choices" with
  | none =>
    refine gathers_nil hs rfl ?_
    cases chunk.objectField? "usage" <;> rfl
  | some choice =>
    rw [Option.bind_some]
    dsimp only
    cases choice.objectField? "delta" with
    | none => exact gathers_nil hs (calls_finish _ s) (callBlocks_finish _ s)
    | some delta =>
      have h := gathers_addDelta hs delta
      constructor
      · rw [Step.state_andThen, calls_finish]
        exact h.state
      · rw [Step.events_andThen, callBlocks_append (delivers_addDelta delta s).callsWhole,
          callBlocks_finish, List.append_nil]
        exact h.events

theorem callBlocks_overChunks (hs : Settled s.calls) (chunks : List Json) :
    callBlocks (Step.overChunks onChunk s chunks).events =
      (gathered s.calls (chunks.map piecesOf)).map blockOf := by
  induction chunks generalizing s with
  | nil => rfl
  | cons chunk chunks ih =>
    have h := gathers_onChunk hs chunk
    have hnext : Settled (onChunk s chunk).state.calls := by
      rw [h.state]
      exact settled_incomplete _
    rw [Step.overChunks, Step.events_andThen,
      callBlocks_append (delivers_onChunk s chunk).callsWhole, h.events, ih hnext, h.state,
      List.map_cons, gathered, List.map_append]

theorem callBlocks_onEnd (s : State) : callBlocks (onEnd s).events = [] := by
  rw [onEnd, Step.events_andThen, callBlocks_append (delivers_closeText false s).callsWhole,
    callBlocks_closeText]
  rfl

/-- The calls of a whole stream. -/
theorem callBlocks_wholeEvents (lines : List Bytes) :
    callBlocks (Step.wholeEvents onChunk onEnd {} lines) =
      (gathered [] ((Chunk.objects lines).map piecesOf)).map blockOf := by
  have hnone : Settled (State.calls {}) := List.forall_mem_nil _
  have hwhole := (delivers_overChunks {} (Chunk.objects lines)).callsWhole
  rw [Step.wholeEvents, callBlocks_append hwhole, callBlocks_overChunks hnone, callBlocks_onEnd,
    List.append_nil]

/-! ## 2. Texts -/

theorem isText_closeText (advance : Bool) (s : State) :
    ∀ e ∈ (closeText advance s).events, e.isText = true := by
  unfold closeText
  split
  · exact List.forall_mem_singleton.mpr rfl
  · exact List.forall_mem_nil _

theorem isText_addText {piece : Bytes} (h : Utf8.valid piece = true) (s : State) :
    ∀ e ∈ (addText piece s).events, e.isText = true := by
  unfold addText
  split
  · exact List.forall_mem_nil _
  · refine List.forall_mem_append.mpr ⟨?_, List.forall_mem_singleton.mpr h⟩
    split
    · exact List.forall_mem_nil _
    · exact List.forall_mem_singleton.mpr rfl

theorem isText_deliverCalls {calls : List (PendingCall × Json)}
    (h : ∀ d ∈ calls, Utf8.valid d.1.id = true ∧ Utf8.valid d.1.name = true ∧ d.2.isText = true)
    (s : State) : ∀ e ∈ (deliverCalls calls s).events, e.isText = true := by
  induction calls generalizing s with
  | nil => exact List.forall_mem_nil _
  | cons d calls ih =>
    obtain ⟨⟨hid, hname, harguments⟩, hcalls⟩ := List.forall_mem_cons.mp h
    refine List.forall_mem_append.mpr ⟨?_, ih hcalls _⟩
    simp only [deliverCall, List.forall_mem_cons]
    exact ⟨Bool.and_eq_true_iff.mpr ⟨hid, hname⟩, harguments, rfl, List.forall_mem_nil _⟩

theorem isText_addCalls {pieces : List Json} (hs : AreText s.calls)
    (hpieces : ∀ piece ∈ pieces, piece.isText = true) :
    ∀ e ∈ (addCalls pieces s).events, e.isText = true := by
  refine List.forall_mem_append.mpr ⟨isText_closeText true s, isText_deliverCalls ?_ _⟩
  rw [calls_closeText]
  exact (hs.addPieces hpieces).completed

theorem isText_finish (reason : Bytes) (s : State) :
    ∀ e ∈ (finish reason s).events, e.isText = true := by
  unfold finish
  split
  · exact List.forall_mem_nil _
  · refine List.forall_mem_append.mpr ⟨isText_closeText false s, ?_⟩
    dsimp only
    split
    · exact List.forall_mem_singleton.mpr rfl
    · exact List.forall_mem_nil _

theorem isText_addDelta (hs : AreText s.calls) {delta : Json} (h : delta.isText = true) :
    ∀ e ∈ (addDelta delta s).events, e.isText = true := by
  refine List.forall_mem_append.mpr ⟨isText_addText (Json.valid_stringField h) s, ?_⟩
  cases hpieces : delta.arrayField? "tool_calls" with
  | none => exact List.forall_mem_nil _
  | some pieces =>
    refine isText_addCalls ?_ (Json.isText_of_mem_arrayField? h hpieces)
    rw [calls_addText]
    exact hs

/-- The events of a chunk of text can be written. -/
theorem isText_onChunk (hs : AreText s.calls) {chunk : Json} (h : chunk.isText = true) :
    ∀ e ∈ (onChunk s chunk).events, e.isText = true := by
  unfold onChunk
  cases hchoice : chunk.headField? "choices" with
  | none =>
    cases chunk.objectField? "usage" with
    | none => exact List.forall_mem_nil _
    | some u => exact List.forall_mem_singleton.mpr rfl
  | some choice =>
    refine List.forall_mem_append.mpr ⟨?_, isText_finish _ _⟩
    cases hdelta : choice.objectField? "delta" with
    | none => exact List.forall_mem_nil _
    | some delta =>
      exact isText_addDelta hs (Json.isText_objectField? (Json.isText_headField? h hchoice) hdelta)

end ChatRelay.OpenAIToClaude
