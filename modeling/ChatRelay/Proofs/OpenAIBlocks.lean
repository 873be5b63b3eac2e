import ChatRelay.Proofs.Blocks
import ChatRelay.Proofs.Chunks
import ChatRelay.Proofs.Writing

/-!
# Blocks of a chat completion stream

The events that a Claude client is sent for a chat completion stream follow the grammar of blocks,
whatever the chunks are.

* `Delivers` -- what a step keeps: from what is open before to what is open after, the numbers of
  the tool calls and the one tool-use stop. Steps in a row keep it (`Delivers.trans`);
* `delivers_onChunk`, `delivers_onEnd` -- every step keeps it;
* `textOf_onChunk` -- a step delivers the text of its chunk;
* `Grammar` -- what follows for a stream from its first line to its end.
-/

namespace ChatRelay.OpenAIToClaude

open ClaudeEvent
open OpenAI (contentOf)

/-- The block that is open. -/
def State.opened (s : State) : Option OpenBlock :=
  if s.textOpen then some ⟨s.textIndex, .text⟩ else none

/-! ## 1. What a step keeps -/

/-- **The events lead from one state to another**: they fit what is open, tool calls are whole and
    bear the next numbers, and a tool-use stop comes once and outside blocks. -/
structure Delivers (s : State) (events : List ClaudeEvent) (s' : State) : Prop where
  bracketed : openAfter? s.opened events = some s'.opened
  callsWhole : CallsWhole events
  numbered : List.range s.toolIndex ++ callIndices events = List.range s'.toolIndex
  stops : events.countP isToolStop + s.toolUseStop.toNat = s'.toolUseStop.toNat
  stopsClosed : OnlyClosed isToolStop s.opened events

variable {s s' s'' : State} {xs ys : List ClaudeEvent}

theorem Delivers.trans (hx : Delivers s xs s') (hy : Delivers s' ys s'') :
    Delivers s (xs ++ ys) s'' where
  bracketed := by rw [openAfter?_append, hx.bracketed, Option.bind_some, hy.bracketed]
  callsWhole := hx.callsWhole.append hy.callsWhole
  numbered := by rw [callIndices_append, ← List.append_assoc, hx.numbered, hy.numbered]
  stops := by
    have h1 := hx.stops
    have h2 := hy.stops
    rw [List.countP_append]
    omega
  stopsClosed := hx.stopsClosed.append hx.bracketed hy.stopsClosed

/-- Nothing but a change of what no event depends on. -/
theorem delivers_nil (hopened : s.opened = s'.opened) (htool : s.toolIndex = s'.toolIndex)
    (hstop : s.toolUseStop = s'.toolUseStop) : Delivers s [] s' where
  bracketed := by rw [hopened]; rfl
  callsWhole := callsWhole_of_none (by simp)
  numbered := by rw [htool]; exact List.append_nil _
  stops := by rw [hstop]; exact Nat.zero_add _
  stopsClosed := onlyClosed_of_none (by simp)

/-- The grammar does not depend on the calls that are gathered. -/
theorem delivers_of_calls (calls : Table Int PendingCall) (h : Delivers { s with calls } xs s') :
    Delivers s xs s' :=
  ⟨h.bracketed, h.callsWhole, h.numbered, h.stops, h.stopsClosed⟩

/-- Two steps in a row. -/
theorem Delivers.andThen {first : Step State ClaudeEvent} {next : State → Step State ClaudeEvent}
    (hfirst : Delivers s first.events first.state)
    (hnext : Delivers first.state (next first.state).events (next first.state).state) :
    Delivers s (first.andThen next).events (first.andThen next).state :=
  hfirst.trans hnext

theorem delivers_closeText (advance : Bool) (s : State) :
    Delivers s (closeText advance s).events (closeText advance s).state := by
  unfold closeText
  split
  · rename_i hopen
    exact
      { bracketed := by simp [State.opened, hopen, openAfter?, next?]
        callsWhole := callsWhole_of_none (by simp [startsCall])
        numbered := List.append_nil _
        stops := Nat.zero_add _
        stopsClosed := onlyClosed_of_none (by simp [isToolStop]) }
  · exact delivers_nil rfl rfl rfl

/-- After closing the text nothing is open. -/
theorem opened_closeText (advance : Bool) (s : State) :
    (closeText advance s).state.opened = none := by
  unfold closeText
  split
  · rfl
  · rename_i hclosed
    simp [State.opened, hclosed]

theorem delivers_addText (piece : Bytes) (s : State) :
    Delivers s (addText piece s).events (addText piece s).state := by
  unfold addText
  split
  · exact delivers_nil rfl rfl rfl
  · refine
      { bracketed := ?_
        callsWhole := callsWhole_of_none ?_
        numbered := ?_
        stops := ?_
        stopsClosed := onlyClosed_of_none ?_ }
    -- a text that is open goes on, and otherwise one starts
    all_goals cases hopen : s.textOpen
    all_goals simp [State.opened, hopen, openAfter?, next?, BlockDelta.fits, startsCall, isToolStop,
      callIndices]

/-- A call comes while nothing is open, and takes the next number. -/
theorem delivers_deliverCall (call : PendingCall) (arguments : Json) (hs : s.opened = none) :
    Delivers s (deliverCall call arguments s).events (deliverCall call arguments s).state where
  bracketed := by
    show openAfter? s.opened _ = some s.opened
    rw [hs]
    simp [deliverCall, openAfter?, next?, BlockDelta.fits]
  callsWhole := callsWhole_call _ _ _ _
  numbered := List.range_succ.symm
  stops := Nat.zero_add _
  stopsClosed := onlyClosed_of_none (by simp [deliverCall, isToolStop])

theorem delivers_deliverCalls (calls : List (PendingCall × Json)) (hs : s.opened = none) :
    Delivers s (deliverCalls calls s).events (deliverCalls calls s).state := by
  induction calls generalizing s with
  | nil => exact delivers_nil rfl rfl rfl
  | cons c calls ih =>
    have hnext : (deliverCall c.1 c.2 s).state.opened = none := hs
    exact (delivers_deliverCall c.1 c.2 hs).andThen (ih hnext)

theorem delivers_addCalls (pieces : List Json) (s : State) :
    Delivers s (addCalls pieces s).events (addCalls pieces s).state := by
  refine (delivers_closeText true s).andThen ?_
  have hopened := opened_closeText true s
  generalize (closeText true s).state = s at hopened ⊢
  exact delivers_of_calls (PendingCall.incomplete _) (delivers_deliverCalls _ hopened)

theorem delivers_addDelta (delta : Json) (s : State) :
    Delivers s (addDelta delta s).events (addDelta delta s).state := by
  refine (delivers_addText _ s).andThen ?_
  split
  · exact delivers_addCalls _ _
  · exact delivers_nil rfl rfl rfl

theorem delivers_finish (reason : Bytes) (s : State) :
    Delivers s (finish reason s).events (finish reason s).state := by
  unfold finish
  split
  · exact delivers_nil rfl rfl rfl
  · refine (delivers_closeText false s).andThen ?_
    have hopened := opened_closeText false s
    generalize (closeText false s).state = s at hopened ⊢
    split
    · rename_i hfirst
      have hstop : s.toolUseStop = false := by
        simpa using (Bool.and_eq_true_iff.mp hfirst).2
      exact
        { bracketed := by rw [hopened]; exact congrArg some hopened.symm
          callsWhole := callsWhole_of_none (by simp [startsCall])
          numbered := List.append_nil _
          stops := by rw [hstop]; rfl
          stopsClosed := by rw [hopened]; exact onlyClosed_singleton _ }
    · exact delivers_nil rfl rfl rfl

/-- **What a chunk brings keeps to the grammar.** -/
theorem delivers_onChunk (s : State) (chunk : Json) :
    Delivers s (onChunk s chunk).events (onChunk s chunk).state := by
  unfold onChunk
  split
  · -- usage alone: it may come while a text is open
    cases chunk.objectField? "usage" with
    | none => exact delivers_nil rfl rfl rfl
    | some u =>
      exact
        { bracketed := by cases s.opened <;> rfl
          callsWhole := callsWhole_of_none (by simp [startsCall])
          numbered := List.append_nil _
          stops := Nat.zero_add _
          stopsClosed := onlyClosed_of_none (by simp [isToolStop]) }
  · refine Delivers.andThen ?_ (delivers_finish _ _)
    split
    · exact delivers_addDelta _ s
    · exact delivers_nil rfl rfl rfl

theorem delivers_overChunks (s : State) (chunks : List Json) :
    Delivers s (Step.overChunks onChunk s chunks).events
      (Step.overChunks onChunk s chunks).state :=
  Step.overChunks_induction (fun _ => delivers_nil rfl rfl rfl) Delivers.trans delivers_onChunk s
    chunks

theorem delivers_onEnd (s : State) : Delivers s (onEnd s).events (onEnd s).state := by
  refine (delivers_closeText false s).andThen ?_
  exact delivers_nil rfl rfl rfl

/-! ## 2. Texts -/

theorem textOf_closeText (advance : Bool) (s : State) :
    textOf (closeText advance s).events = [] := by
  unfold closeText
  split <;> rfl

theorem textOf_addText (piece : Bytes) (s : State) : textOf (addText piece s).events = piece := by
  unfold addText
  split
  · rename_i hempty
    exact (List.isEmpty_iff.mp hempty).symm
  · rw [textOf_append]
    cases s.textOpen <;> exact List.append_nil piece

theorem textOf_deliverCalls (calls : List (PendingCall × Json)) (s : State) :
    textOf (deliverCalls calls s).events = [] := by
  induction calls generalizing s with
  | nil => rfl
  | cons c calls ih =>
    show textOf ((deliverCall c.1 c.2 s).events ++ _) = []
    rw [textOf_append, ih]
    rfl

theorem textOf_addDelta (delta : Json) (s : State) :
    textOf (addDelta delta s).events = delta.stringField "content" := by
  rw [addDelta, Step.events_andThen, textOf_append, textOf_addText]
  split
  · rw [addCalls, Step.events_andThen, textOf_append, textOf_closeText, textOf_deliverCalls]
    exact List.append_nil _
  · exact List.append_nil _

theorem textOf_finish (reason : Bytes) (s : State) : textOf (finish reason s).events = [] := by
  unfold finish
  split
  · rfl
  · rw [Step.events_andThen, textOf_append, textOf_closeText]
    split <;> rfl

/-- A step delivers the text of its chunk, and no other. -/
theorem textOf_onChunk (s : State) (chunk : Json) :
    textOf (onChunk s chunk).events = contentOf chunk := by
  unfold onChunk contentOf OpenAI.deltaOf?
  cases chunk.headField? "choices" with
  | none => cases chunk.objectField? "usage" <;> rfl
  | some choice =>
    dsimp only
    rw [Step.events_andThen, textOf_append, textOf_finish, List.append_nil, Option.bind_some]
    cases choice.objectField? "delta" with
    | none => rfl
    | some delta => exact textOf_addDelta delta s

theorem textOf_overChunks (s : State) (chunks : List Json) :
    textOf (Step.overChunks onChunk s chunks).events = chunks.flatMap contentOf := by
  induction chunks generalizing s with
  | nil => rfl
  | cons chunk chunks ih =>
    rw [Step.overChunks, Step.events_andThen, textOf_append, textOf_onChunk, ih,
      List.flatMap_cons]

theorem textOf_onEnd (s : State) : textOf (onEnd s).events = [] := by
  rw [onEnd, Step.events_andThen, textOf_append, textOf_closeText]
  rfl

/-! ## 3. Whole streams -/

/-- **The grammar of a whole stream** for the chunks of its lines. -/
structure Grammar (chunks : List Json) (events : List ClaudeEvent) : Prop where
  /-- Blocks are opened and closed one at a time, pieces go to the open block and are of its kind,
      and no block is open at the end. -/
  bracketed : openAfter? none events = some none
  /-- A tool call is not interrupted. -/
  callsWhole : CallsWhole events
  /-- Tool calls are numbered from 0. -/
  numbered : ∃ n, callIndices events = List.range n
  /-- The text is that of the first choices. -/
  text : textOf events = chunks.flatMap contentOf
  /-- A tool-use stop comes once at most. -/
  stopOnce : events.countP isToolStop ≤ 1
  /-- A tool-use stop comes outside blocks. -/
  stopsClosed : OnlyClosed isToolStop none events

/-- The events of any chunks and of the end follow the grammar. -/
theorem grammar_wholeEvents (lines : List Bytes) :
    Grammar (Chunk.objects lines) (Step.wholeEvents onChunk onEnd {} lines) := by
  have hchunks := delivers_overChunks {} (Chunk.objects lines)
  have hend := delivers_onEnd (Step.overChunks onChunk {} (Chunk.objects lines)).state
  have hclosed := opened_closeText false (Step.overChunks onChunk {} (Chunk.objects lines)).state
  have hall := hchunks.trans hend
  exact
    { bracketed := hall.bracketed.trans (congrArg some hclosed)
      callsWhole := hall.callsWhole
      numbered := ⟨_, hall.numbered⟩
      text := by
        rw [Step.wholeEvents, textOf_append, textOf_overChunks, textOf_onEnd, List.append_nil]
      stopOnce := Nat.le_trans (Nat.le.intro hall.stops) (Bool.toNat_le _)
      stopsClosed := hall.stopsClosed }

/-- What the end brings can be written. -/
theorem isText_of_mem_onEnd {s : State} {e : ClaudeEvent} (h : e ∈ (onEnd s).events) :
    e.isText = true := by
  unfold onEnd closeText at h
  split at h
  · rcases List.mem_singleton.mp h with rfl
    rfl
  · cases h

/-- **Every stream for a Claude client follows the grammar.** When no line fails, neither does the
    end, and what was written are events of the grammar. -/
theorem stream_grammar {lines : List Bytes} {fed : Step Transcoder Bytes}
    (hfed : (Transcoder.openaiToClaude {}).feed lines = .ok fed) :
    ∃ last, fed.state.onEnd = .ok last ∧
      ∃ events, events.mapM ClaudeEvent.render = .ok (fed.events ++ last.events) ∧
        Grammar (Chunk.objects lines) events := by
  obtain ⟨last, hlast, hwritten⟩ :=
    Transcoder.written_of_feed Transcoder.typed_openaiToClaude
      (fun _ _ he => ClaudeEvent.exists_render (isText_of_mem_onEnd he)) hfed
  exact ⟨last, hlast, _, hwritten, grammar_wholeEvents lines⟩

/-- A text, a tool call and a finish reason: three events for the text, three for the call, and the
    stop. -/
theorem stream_grammar_text_call_stop :
    let lines : List Bytes :=
      [Bytes.ofString "data: \x7b\"choices\":[\x7b\"delta\":\x7b\"content\":\"a\"\x7d\x7d]\x7d",
        Bytes.ofString
          ("data: \x7b\"choices\":[\x7b\"delta\":\x7b\"tool_calls\":[\x7b\"id\":\"c\"," ++
          "\"function\":\x7b\"name\":\"f\",\"arguments\":\"\x7b\x7d\"\x7d\x7d]\x7d\x7d]\x7d"),
        Bytes.ofString "data: \x7b\"choices\":[\x7b\"finish_reason\":\"tool_calls\"\x7d]\x7d"]
    ∃ fed, (Transcoder.openaiToClaude {}).feed lines = .ok fed ∧ fed.events.length = 7 ∧
      ∃ last, fed.state.onEnd = .ok last ∧
        ∃ events, events.mapM ClaudeEvent.render = .ok (fed.events ++ last.events) ∧
          Grammar (Chunk.objects lines) events := by
  intro lines
  have hseven : ((Transcoder.openaiToClaude {}).feed lines).toOption.map (·.events.length) =
      some 7 := by decide +kernel
  obtain ⟨fed, hfed, hlength⟩ := exists_of_toOption_map hseven
  exact ⟨fed, hfed, hlength, stream_grammar hfed⟩

end ChatRelay.OpenAIToClaude
