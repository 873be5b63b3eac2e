import ChatRelay.Proofs.JsonRoundTrip
import ChatRelay.Proofs.PassingThrough
import ChatRelay.Proofs.Completions
import ChatRelay.Proofs.StreamedGemini

/-!
# Tool-use stops are delivered

A stream may end without an error although its body failed, when the client has been told to call
tools. Each transcoder has a flag for that, and keeps it in its own way; the flag is set exactly
when an event was brought that tells the client so, for every run of lines that is followed by the
end.

* `Transcoder.TellsToolUse` -- the events that tell the client to call tools;
* `Transcoder.brought`, `Transcoder.ended` -- the events of lines and of the end, each with the line
  that brought it, and the transcoder after them;
* `Transcoder.Settles` -- what one step does to the flag;
* `Transcoder.quiet_end_tells_tool_use` -- so a stream that ends without an error after a failed
  read has delivered such an event.
-/

namespace ChatRelay

/-! ## 1. Events that tell of a tool-use stop -/

namespace Json

theorem quote_append_inj {s t u v : Bytes} (h : quote s ++ u = quote t ++ v) : s = t := by
  have hread (s u : Bytes) : readChars .plain [] ((quote s ++ u).drop 1) = some (s, u) := by
    have htext : (quote s ++ u).drop 1 = s.flatMap escapeByte ++ 0x22 :: u := by
      simp [quote]
    rw [htext, readChars_flatMap_escapeByte, readChars, if_pos rfl, List.append_nil,
      List.reverse_reverse]
  have hboth := (hread s u).symm.trans ((congrArg (fun w => readChars .plain [] (w.drop 1)) h).trans
    (hread t v))
  exact (Prod.mk.inj (Option.some.inj hboth)).1

end Json

namespace ClaudeEvent

/-- A written message delta that tells the client to call tools. -/
def SaysToolUse (event : Bytes) : Prop :=
  ∃ usage, (messageDelta (some "tool_use") usage).render = .ok event

/-- The reason in the text of a message delta. -/
def deltaText : Option Bytes → Bytes
  | some reason => Bytes.ofString "\x7b\"stop_reason\":" ++ (Json.quote reason ++ [0x7D])
  | none => Bytes.ofString "\x7b\x7d"

theorem deltaText_inj {reason reason' : Option Bytes} {u v : Bytes}
    (h : deltaText reason ++ u = deltaText reason' ++ v) : reason = reason' := by
  -- an empty delta is closed where the other has a name
  have hne (reason u v : Bytes) : deltaText (some reason) ++ u ≠ deltaText none ++ v := by
    intro h
    have hfirst : ([0x7B, 0x22] : Bytes) = [0x7B, 0x7D] := congrArg (·.take 2) h
    exact absurd hfirst (by decide)
  cases reason with
  | none =>
    cases reason' with
    | none => rfl
    | some reason' => exact absurd h.symm (hne reason' v u)
  | some reason =>
    cases reason' with
    | none => exact absurd h (hne reason u v)
    | some reason' =>
      simp only [deltaText, List.append_assoc] at h
      rw [Json.quote_append_inj (List.append_cancel_left h)]

/-- A message delta is written with its reason first. -/
theorem render_messageDelta {reason : Option Bytes} {usage : Option Usage} {text : Bytes}
    (h : (messageDelta reason usage).render = .ok text) :
    ∃ rest, text = Sse.event "message_delta"
      (Bytes.ofString "\x7b\"delta\":" ++ (deltaText reason ++ rest)) := by
  obtain ⟨value, hvalue, h⟩ := bind_eq_ok_iff.mp h
  obtain ⟨data, hdump, rfl⟩ := map_eq_ok_iff.mp h
  obtain ⟨-, rfl⟩ := Json.of_dump hdump
  cases hvalue
  cases reason with
  | none => cases usage <;> exact ⟨_, rfl⟩
  | some reason => cases usage <;> exact ⟨_, rfl⟩

/-- An event is written under its name. -/
theorem exists_event_of_render {e : ClaudeEvent} {text : Bytes} (h : e.render = .ok text) :
    ∃ data, text = Sse.event e.name data := by
  obtain ⟨value, -, h⟩ := bind_eq_ok_iff.mp h
  obtain ⟨data, -, rfl⟩ := map_eq_ok_iff.mp h
  exact ⟨data, rfl⟩

theorem exists_messageDelta_of_name {e : ClaudeEvent} (h : e.name = "message_delta") :
    ∃ reason usage, e = messageDelta reason usage := by
  cases e with
  | messageDelta reason usage => exact ⟨reason, usage, rfl⟩
  | blockStart =>
    have hother : Bytes.ofString "content_block_start" = Bytes.ofString "message_delta" := h
    exact absurd hother (by decide)
  | blockDelta =>
    have hother : Bytes.ofString "content_block_delta" = Bytes.ofString "message_delta" := h
    exact absurd hother (by decide)
  | blockStop =>
    have hother : Bytes.ofString "content_block_stop" = Bytes.ofString "message_delta" := h
    exact absurd hother (by decide)

/-- **A written event tells of tools exactly when it is a tool-use stop.** -/
theorem saysToolUse_iff {e : ClaudeEvent} {text : Bytes} (h : e.render = .ok text) :
    SaysToolUse text ↔ e.isToolStop = true := by
  constructor
  · rintro ⟨usage, hrender⟩
    obtain ⟨rest, htext⟩ := render_messageDelta hrender
    obtain ⟨data, heq⟩ := exists_event_of_render h
    obtain ⟨reason, usage', rfl⟩ := exists_messageDelta_of_name
      (Sse.event_inj e.plain_name (by decide) (heq.symm.trans htext)).1
    obtain ⟨rest', htext'⟩ := render_messageDelta h
    have hdata := (Sse.event_inj (by decide) (by decide) (htext'.symm.trans htext)).2
    rw [deltaText_inj (List.append_cancel_left hdata)]
    rfl
  · intro hstop
    cases e with
    | messageDelta reason usage =>
      cases reason with
      | none => cases hstop
      | some reason =>
        obtain rfl : reason = Bytes.ofString "tool_use" := of_decide_eq_true hstop
        exact ⟨usage, h⟩
    | _ => cases hstop

theorem exists_saysToolUse_iff {events : List ClaudeEvent} {texts : List Bytes}
    (h : events.mapM render = .ok texts) :
    (∃ text ∈ texts, SaysToolUse text) ↔ ∃ e ∈ events, e.isToolStop = true := by
  constructor
  · rintro ⟨text, htext, htold⟩
    obtain ⟨e, he, hrender⟩ := exists_mem_of_mapM_ok h text htext
    exact ⟨e, he, (saysToolUse_iff hrender).mp htold⟩
  · rintro ⟨e, he, hstop⟩
    obtain ⟨text, htext, hrender⟩ := exists_mem_of_mem_mapM h he
    exact ⟨text, htext, (saysToolUse_iff hrender).mpr hstop⟩

end ClaudeEvent

namespace GeminiChunk

/-- A written chunk that ends its candidate. -/
def Finishes (event : Bytes) : Prop :=
  ∃ reason usage, (finish reason usage).render = .ok event

end GeminiChunk

/-! ## 2. Steps on chunks -/

open ClaudeEvent (isToolStop)

theorem ClaudeEvent.isMessageDelta_of_isToolStop {e : ClaudeEvent} (h : e.isToolStop = true) :
    e.isMessageDelta = true := by
  cases e with
  | messageDelta reason usage => rfl
  | _ => cases h

namespace OpenAIToClaude

/-- The flag is set when the tool-use stop is brought. -/
theorem Delivers.stop_iff {s s' : State} {events : List ClaudeEvent} (h : Delivers s events s') :
    s'.toolUseStop = true ↔ s.toolUseStop = true ∨ ∃ e ∈ events, e.isToolStop = true := by
  have hpos (b : Bool) : b = true ↔ 0 < b.toNat := by cases b <;> decide
  have hstops := h.stops
  rw [← List.countP_pos_iff, hpos, hpos s.toolUseStop]
  omega

end OpenAIToClaude

namespace GeminiToClaude

/-- The end was not reported between these states. -/
def SameEnd (s s' : State) : Prop :=
  s'.finished = s.finished ∧ s'.toolUseStop = s.toolUseStop

theorem SameEnd.trans {s s' s'' : State} (h : SameEnd s s') (h' : SameEnd s' s'') : SameEnd s s'' :=
  ⟨h'.1.trans h.1, h'.2.trans h.2⟩

theorem sameEnd_closeBlock (s : State) : SameEnd s (closeBlock s).state := by
  unfold closeBlock
  split
  · exact ⟨rfl, rfl⟩
  · exact ⟨rfl, rfl⟩

theorem sameEnd_addPieces (kind : OpenKind) (pieces : List BlockDelta) (s : State) :
    SameEnd s (addPieces kind pieces s).state := by
  show SameEnd s (openBlock kind s).state
  unfold openBlock
  split
  · exact ⟨rfl, rfl⟩
  · exact sameEnd_closeBlock s

theorem sameEnd_addText (part : Json) (text : Bytes) (s : State) :
    SameEnd s (addText part text s).state := by
  unfold addText
  split
  · exact sameEnd_addPieces _ _ s
  · split
    · exact ⟨rfl, rfl⟩
    · exact sameEnd_addPieces _ _ s

theorem sameEnd_addPart (part : Json) (s : State) : SameEnd s (addPart part s).state := by
  unfold addPart
  split
  · exact sameEnd_addText part _ s
  · split
    · exact sameEnd_closeBlock s
    · exact ⟨rfl, rfl⟩

theorem sameEnd_addParts (parts : List Json) (s : State) : SameEnd s (addParts parts s).state := by
  induction parts generalizing s with
  | nil => exact ⟨rfl, rfl⟩
  | cons part parts ih => exact (sameEnd_addPart part s).trans (ih _)

/-- A tool-use stop is an end. -/
def State.Consistent (s : State) : Prop :=
  s.toolUseStop = true → s.finished = true

/-- **What events do to the flag** of a consistent state: it is set when a tool-use stop is
    brought. -/
structure Marks (s : State) (events : List ClaudeEvent) (s' : State) : Prop where
  consistent : s'.Consistent
  stop_iff : s'.toolUseStop = true ↔
    s.toolUseStop = true ∨ ∃ e ∈ events, e.isToolStop = true

variable {s s' s'' : State} {xs ys : List ClaudeEvent}

theorem Marks.trans (hx : Marks s xs s') (hy : Marks s' ys s'') : Marks s (xs ++ ys) s'' where
  consistent := hy.consistent
  stop_iff := by
    simp only [hy.stop_iff, hx.stop_iff, List.mem_append, or_assoc, or_and_right, exists_or]

theorem Marks.andThen {first : Step State ClaudeEvent} {next : State → Step State ClaudeEvent}
    (hfirst : Marks s first.events first.state)
    (hnext : first.state.Consistent →
      Marks first.state (next first.state).events (next first.state).state) :
    Marks s (first.andThen next).events (first.andThen next).state :=
  hfirst.trans (hnext hfirst.consistent)

/-- Where the end is not reported, no tool-use stop is brought. -/
theorem SameEnd.marks (h : SameEnd s s') (hdelivers : Delivers s xs s') (hs : s.Consistent) :
    Marks s xs s' := by
  have hnone : ¬ ∃ e ∈ xs, e.isToolStop = true := by
    rintro ⟨e, he, hstop⟩
    have hquiet := quiet_of_delivers hdelivers h.1
    have hmem := List.mem_filter.mpr ⟨he, ClaudeEvent.isMessageDelta_of_isToolStop hstop⟩
    rw [hquiet] at hmem
    cases hmem
  obtain ⟨hfinished, hstop⟩ := h
  refine ⟨?_, ?_⟩
  · rw [State.Consistent, hfinished, hstop]
    exact hs
  · rw [hstop, or_iff_left hnone]

theorem marks_closeBlock (hs : s.Consistent) :
    Marks s (closeBlock s).events (closeBlock s).state :=
  (sameEnd_closeBlock s).marks (delivers_closeBlock s) hs

theorem marks_finish (reason : Bytes) (hs : s.Consistent) :
    Marks s (finish reason s).events (finish reason s).state := by
  unfold finish
  split
  · exact ⟨hs, by simp⟩
  · rename_i hfirst
    have hopen : (closeBlock s).state.finished = false := by
      rw [(sameEnd_closeBlock s).1]
      simpa using (not_or.mp (mt (Bool.or_eq_true _ _).mpr hfirst)).2
    refine (marks_closeBlock hs).andThen fun hconsistent => ?_
    generalize (closeBlock s).state = s at hopen hconsistent ⊢
    have hunset : ¬ s.toolUseStop = true := fun hset => by
      rw [hconsistent hset] at hopen
      cases hopen
    refine ⟨fun _ => rfl, ?_⟩
    -- the reason is that of a tool call exactly when there was one
    by_cases hcalls : 0 < s.callCount
    · simp [hcalls, isToolStop]
    · simp [hcalls, hunset, isToolStop, geminiToClaude_ne_toolUse]

theorem marks_onChunk (chunk : Json) (hs : s.Consistent) :
    Marks s (onChunk s chunk).events (onChunk s chunk).state := by
  rw [onChunk_eq]
  generalize (chunk.objectField? "usageMetadata").or s.usage = usage
  have hparts : Marks { s with usage } (addParts (Gemini.partsOf chunk) { s with usage }).events
      (addParts (Gemini.partsOf chunk) { s with usage }).state :=
    (sameEnd_addParts _ _).marks (delivers_addParts _ _) hs
  have hboth := hparts.trans (marks_finish (Gemini.reasonOf chunk) hparts.consistent)
  exact ⟨hboth.consistent, hboth.stop_iff⟩

theorem marks_onEnd (hs : s.Consistent) : Marks s (onEnd s).events (onEnd s).state := by
  refine (marks_closeBlock hs).andThen fun hconsistent => ?_
  generalize (closeBlock s).state = s at hconsistent ⊢
  split
  · exact ⟨hconsistent, by simp⟩
  · exact ⟨fun _ => rfl, by simp [isToolStop]⟩

end GeminiToClaude

namespace OpenAIToGemini

/-- The flag is set by a finish reason that asks for tools. -/
theorem toolUseStop_onChunk (s : State) (chunk : Json) :
    (onChunk s chunk).state.toolUseStop =
      (s.toolUseStop || StopReason.callsTools (OpenAI.reasonOf chunk)) := by
  have hdelta (delta : Json) : (addDelta delta s).state.toolUseStop = s.toolUseStop := by
    unfold addDelta
    rw [Step.state_andThen]
    split <;> rfl
  have hfinish (reason : Bytes) (usage : Option Usage) (s : State) :
      (finish reason usage s).state.toolUseStop =
        (s.toolUseStop || StopReason.callsTools reason) := by
    unfold finish
    split
    · rename_i hempty
      rw [List.isEmpty_iff.mp hempty]
      exact (Bool.or_false _).symm
    · rfl
  unfold onChunk OpenAI.reasonOf
  cases chunk.headField? "choices" with
  | none => exact (Bool.or_false _).symm
  | some choice =>
    dsimp only
    rw [Step.state_andThen, hfinish]
    cases choice.objectField? "delta" with
    | none => rfl
    | some delta => exact congrArg (· || _) (hdelta delta)

/-- A finish reason that asks for tools ends the candidate. -/
theorem exists_finish {chunk : Json} (h : StopReason.callsTools (OpenAI.reasonOf chunk) = true)
    (s : State) : ∃ reason usage, GeminiChunk.finish reason usage ∈ (onChunk s chunk).events := by
  unfold OpenAI.reasonOf at h
  unfold onChunk
  cases hchoice : chunk.headField? "choices" with
  | none =>
    rw [hchoice] at h
    cases h
  | some choice =>
    rw [hchoice] at h
    dsimp only at h
    have hreason : ¬ (choice.stringField "finish_reason").isEmpty = true := fun hempty => by
      rw [List.isEmpty_iff.mp hempty] at h
      cases h
    refine ⟨StopReason.openaiToGemini (choice.stringField "finish_reason"),
      (chunk.objectField? "usage").map Usage.ofOpenai, List.mem_append_right _ ?_⟩
    rw [finish, if_neg hreason]
    exact List.mem_cons_self

end OpenAIToGemini

namespace ClaudeToGemini

/-- Whether an event of the backend ends the message for tools. -/
def stopsForTools (event : Json) : Bool :=
  event.stringField "type" = "message_delta" ∧
    ((event.field? "delta").getD .null).stringField "stop_reason" = "tool_use"

/-- A message delta ends the message. -/
theorem onChunk_of_messageDelta {event : Json} (h : event.stringField "type" = "message_delta")
    (s : State) : onChunk s event = finish event s := by
  have hne {type : Bytes} (htype : Bytes.ofString "message_delta" ≠ type) :
      ¬ event.stringField "type" = type := by
    rw [h]
    exact htype
  unfold onChunk
  dsimp only
  rw [if_neg (hne (by decide)), if_neg (hne (by decide)), if_neg (hne (by decide)),
    if_neg (hne (by decide)), if_pos h]

/-- The flag is set by a message delta with a tool-use stop. -/
theorem toolUseStop_onChunk (s : State) (event : Json) :
    (onChunk s event).state.toolUseStop = (s.toolUseStop || stopsForTools event) := by
  by_cases hlast : event.stringField "type" = "message_delta"
  · rw [onChunk_of_messageDelta hlast, Bool.eq_iff_iff]
    simp [finish, stopsForTools, hlast]
  · have hother : stopsForTools event = false := by simp [stopsForTools, hlast]
    rw [hother, Bool.or_false]
    -- no other event touches the flag
    simp only [onChunk, startBlock, addDelta, stopBlock, if_neg hlast]
    repeat' split
    all_goals rfl

theorem exists_finish {event : Json} (h : stopsForTools event = true) (s : State) :
    ∃ reason usage, GeminiChunk.finish reason usage ∈ (onChunk s event).events := by
  rw [onChunk_of_messageDelta (of_decide_eq_true h).1]
  exact ⟨_, _, List.mem_cons_self⟩

end ClaudeToGemini

/-! ## 3. Steps on lines -/

namespace Transcoder

/-- The object that a line carries, if there is a line and it carries one. -/
def objectOf? (line? : Option Bytes) : Option Json :=
  line?.bind fun line => (Chunk.ofLine line).data?

/-- **Whether an event tells the client to call tools**, given the line on which it was brought, or
    none at the end. The Gemini dialect has no word for it: there it is the end of the candidate, on
    a line that ends the backend's reply for tools. Clients of the Responses dialect are never
    told. -/
def TellsToolUse (t : Transcoder) (line? : Option Bytes) (event : Bytes) : Prop :=
  match t with
  | passthrough _ => Passthrough.marksToolUseStop event = true
  | openaiToClaude _ | geminiToClaude _ => ClaudeEvent.SaysToolUse event
  | openaiToGemini _ =>
    GeminiChunk.Finishes event ∧
      ∃ chunk ∈ objectOf? line?, StopReason.callsTools (OpenAI.reasonOf chunk) = true
  | claudeToGemini _ =>
    GeminiChunk.Finishes event ∧
      ∃ chunk ∈ objectOf? line?, ClaudeToGemini.stopsForTools chunk = true
  | openaiToReplies _ | claudeToReplies _ => False

/-- A transcoder that reads the lines, in a state in which its flag can be trusted. -/
def Steady : Transcoder → Prop
  | passthrough _ => False
  | geminiToClaude s => s.Consistent
  | _ => True

/-- **What a step does to the flag**: it is set when an event is brought that tells of tools. What
    tells of tools is the same afterwards. -/
structure Settles (t : Transcoder) (line? : Option Bytes) (after : Taken) : Prop where
  steady : after.transcoder.Steady
  tells_iff : ∀ line? event,
    after.transcoder.TellsToolUse line? event ↔ t.TellsToolUse line? event
  stop_iff : after.transcoder.toolUseStop = true ↔
    t.toolUseStop = true ∨ ∃ event ∈ after.events, t.TellsToolUse line? event

theorem Steady.settles_nil {t : Transcoder} (h : t.Steady) (line? : Option Bytes)
    (error : Option RelayError) : t.Settles line? ⟨t, [], error⟩ :=
  ⟨h, fun _ _ => Iff.rfl, by simp⟩

section

variable {σ ε : Type} {render : ε → Except RelayError Bytes} {wrap : σ → Transcoder}
  {component : Bytes} {onChunk : σ → Json → Step σ ε} {onEnd : σ → Step σ ε} {s : σ}
  {tells : Option Json → Bytes → Prop}

/-- The same of a step before its events are written. -/
structure MarksStop (wrap : σ → Transcoder) (render : ε → Except RelayError Bytes)
    (told : Bytes → Prop) (s : σ) (step : Step σ ε) : Prop where
  steady : (wrap step.state).Steady
  stop_iff : ∀ texts, step.events.mapM render = .ok texts →
    ((wrap step.state).toolUseStop = true ↔
      (wrap s).toolUseStop = true ∨ ∃ text ∈ texts, told text)

theorem MarksStop.settles {line? : Option Bytes}
    (htells : ∀ s line? event, (wrap s).TellsToolUse line? event ↔ tells (objectOf? line?) event)
    {step : Step σ ε} (h : MarksStop wrap render (tells (objectOf? line?)) s step)
    {written : Step Transcoder Bytes} (hwrite : write render wrap step = .ok written) :
    (wrap s).Settles line? ⟨written.state, written.events, none⟩ := by
  obtain ⟨texts, htexts, rfl⟩ := write_eq_ok_iff.mp hwrite
  refine ⟨h.steady, fun _ _ => (htells _ _ _).trans (htells _ _ _).symm, ?_⟩
  simp only [htells]
  exact h.stop_iff texts htexts

/-- A line that carries a chunk does what the chunk does, and any other line does nothing. -/
theorem marksStop_onLine {told : Bytes → Prop} {line : Bytes} {step : Step σ ε}
    (h : Step.onLine component onChunk s line = .ok step) (hs : (wrap s).Steady)
    (hchunk : ∀ chunk, objectOf? (some line) = some chunk →
      MarksStop wrap render told s (onChunk s chunk)) :
    MarksStop wrap render told s step := by
  have hnothing (log : List LogEntry) : MarksStop wrap render told s { state := s, log } := by
    refine ⟨hs, fun texts htexts => ?_⟩
    cases htexts
    simp
  unfold Step.onLine at h
  split at h
  · cases h
    exact hnothing _
  · cases h
    exact hnothing _
  · rename_i object hobject
    cases h
    refine hchunk object ?_
    rw [objectOf?, Option.bind_some, hobject]
    rfl
  · obtain ⟨text, -, h⟩ := bind_eq_ok_iff.mp h
    cases h

/-- **A transcoder whose steps on chunks mark the flag does so on lines.** -/
theorem Typed.settles (ht : Typed wrap component onChunk onEnd render)
    (tells : Option Json → Bytes → Prop)
    (htells : ∀ s line? event, (wrap s).TellsToolUse line? event ↔ tells (objectOf? line?) event)
    (hchunk : ∀ s chunk, (wrap s).Steady →
      MarksStop wrap render (tells (some chunk)) s (onChunk s chunk))
    (hend : ∀ s, (wrap s).Steady → MarksStop wrap render (tells none) s (onEnd s))
    (hs : (wrap s).Steady) :
    (∀ line, (wrap s).Settles (some line) ((wrap s).take line)) ∧
      (wrap s).Settles none ((wrap s).taken (wrap s).onEnd) := by
  refine ⟨fun line => ?_, ?_⟩
  · rw [take]
    cases hline : (wrap s).onLine line with
    | error e => exact hs.settles_nil _ _
    | ok written =>
      rw [ht.onLine_eq] at hline
      obtain ⟨step, hstep, hwrite⟩ := bind_eq_ok_iff.mp hline
      refine MarksStop.settles htells (marksStop_onLine hstep hs fun chunk hobject => ?_) hwrite
      rw [hobject]
      exact hchunk s chunk hs
  · cases hlast : (wrap s).onEnd with
    | error e => exact hs.settles_nil _ _
    | ok written =>
      rw [ht.onEnd_eq] at hlast
      exact (hend s hs).settles htells hlast

/-- A step for a Claude client, whose flag is set by a tool-use stop. -/
theorem marksStop_of_isToolStop {wrap : σ → Transcoder} {step : Step σ ClaudeEvent}
    (hsteady : (wrap step.state).Steady)
    (h : (wrap step.state).toolUseStop = true ↔
      (wrap s).toolUseStop = true ∨ ∃ e ∈ step.events, e.isToolStop = true) :
    MarksStop wrap ClaudeEvent.render ClaudeEvent.SaysToolUse s step where
  steady := hsteady
  stop_iff texts htexts := by rw [h, ClaudeEvent.exists_saysToolUse_iff htexts]

/-- A step for a Gemini client, whose flag is set by a chunk that ends the reply for tools. -/
theorem marksStop_of_finish {wrap : σ → Transcoder} {step : Step σ GeminiChunk}
    {stops : Json → Bool} {chunk : Json} (hsteady : (wrap step.state).Steady)
    (hflag : (wrap step.state).toolUseStop = ((wrap s).toolUseStop || stops chunk))
    (hfinish : stops chunk = true →
      ∃ reason usage, GeminiChunk.finish reason usage ∈ step.events) :
    MarksStop wrap GeminiChunk.render
      (fun text => GeminiChunk.Finishes text ∧ ∃ c ∈ some chunk, stops c = true) s step where
  steady := hsteady
  stop_iff texts htexts := by
    rw [hflag, Bool.or_eq_true]
    refine or_congr_right ⟨fun hstops => ?_, fun htold => ?_⟩
    · obtain ⟨reason, usage, hmem⟩ := hfinish hstops
      obtain ⟨text, htext, hrender⟩ := exists_mem_of_mem_mapM htexts hmem
      exact ⟨text, htext, ⟨reason, usage, hrender⟩, chunk, rfl, hstops⟩
    · obtain ⟨text, -, -, c, hc, hstops⟩ := htold
      cases hc
      exact hstops

/-- A step that brings no word of tools and leaves the flag as it is. -/
theorem marksStop_of_quiet {step : Step σ ε} {told : Bytes → Prop} (htold : ∀ text, ¬ told text)
    (hsteady : (wrap step.state).Steady)
    (hflag : (wrap step.state).toolUseStop = (wrap s).toolUseStop) :
    MarksStop wrap render told s step where
  steady := hsteady
  stop_iff _ _ := by simp [hflag, htold]

end

variable {t : Transcoder}

/-- **Every step does this to the flag**, of every transcoder that reads the lines. -/
theorem Steady.settles (h : t.Steady) :
    (∀ line, t.Settles (some line) (t.take line)) ∧ t.Settles none (t.taken t.onEnd) := by
  cases t with
  | passthrough s => exact h.elim
  | openaiToClaude s =>
    refine typed_openaiToClaude.settles (fun _ => ClaudeEvent.SaysToolUse)
      (fun _ _ _ => Iff.rfl) (fun s chunk _ => ?_) (fun s _ => ?_) h
    · exact marksStop_of_isToolStop trivial (OpenAIToClaude.delivers_onChunk s chunk).stop_iff
    · exact marksStop_of_isToolStop trivial (OpenAIToClaude.delivers_onEnd s).stop_iff
  | geminiToClaude s =>
    refine typed_geminiToClaude.settles (fun _ => ClaudeEvent.SaysToolUse)
      (fun _ _ _ => Iff.rfl) (fun s chunk hs => ?_) (fun s hs => ?_) h
    · obtain ⟨hsteady, hstop⟩ := GeminiToClaude.marks_onChunk chunk hs
      exact marksStop_of_isToolStop hsteady hstop
    · obtain ⟨hsteady, hstop⟩ := GeminiToClaude.marks_onEnd hs
      exact marksStop_of_isToolStop hsteady hstop
  | openaiToGemini s =>
    refine typed_openaiToGemini.settles
      (fun chunk? text => GeminiChunk.Finishes text ∧
        ∃ chunk ∈ chunk?, StopReason.callsTools (OpenAI.reasonOf chunk) = true)
      (fun _ _ _ => Iff.rfl) (fun s chunk _ => ?_) (fun s _ => ?_) h
    · exact marksStop_of_finish trivial (OpenAIToGemini.toolUseStop_onChunk s chunk)
        fun hstops => OpenAIToGemini.exists_finish hstops s
    · exact marksStop_of_quiet (by simp) trivial rfl
  | claudeToGemini s =>
    refine typed_claudeToGemini.settles
      (fun chunk? text => GeminiChunk.Finishes text ∧
        ∃ chunk ∈ chunk?, ClaudeToGemini.stopsForTools chunk = true)
      (fun _ _ _ => Iff.rfl) (fun s chunk _ => ?_) (fun s _ => ?_) h
    · exact marksStop_of_finish trivial (ClaudeToGemini.toolUseStop_onChunk s chunk)
        fun hstops => ClaudeToGemini.exists_finish hstops s
    · exact marksStop_of_quiet (by simp) trivial rfl
  | openaiToReplies w =>
    exact typed_openaiToReplies.settles (fun _ _ => False) (fun _ _ _ => Iff.rfl)
      (fun _ _ _ => marksStop_of_quiet (by simp) trivial rfl)
      (fun _ _ => marksStop_of_quiet (by simp) trivial rfl) h
  | claudeToReplies s =>
    exact typed_claudeToReplies.settles (fun _ _ => False) (fun _ _ _ => Iff.rfl)
      (fun _ _ _ => marksStop_of_quiet (by simp) trivial rfl)
      (fun _ _ => marksStop_of_quiet (by simp) trivial rfl) h

end Transcoder

/-! ## 4. Streams that are passed through -/

namespace Bytes

variable {needle : Bytes} {sep : UInt8}

theorem isPrefixOf_append_sep (h : sep ∉ needle) (u v : Bytes) :
    needle.isPrefixOf (u ++ sep :: v) = needle.isPrefixOf u := by
  induction needle generalizing u with
  | nil => simp
  | cons c needle ih =>
    have hne : (c == sep) = false := by
      rw [beq_eq_false_iff_ne]
      exact fun e => h (e ▸ List.mem_cons_self)
    cases u with
    | nil => simp [List.isPrefixOf, hne]
    | cons b u => simp [List.isPrefixOf, ih fun hmem => h (List.mem_cons_of_mem c hmem)]

/-- What holds no line feed is in a line or in what follows it, and not across. -/
theorem contains_append_sep (h : sep ∉ needle) (u v : Bytes) :
    contains (u ++ sep :: v) needle = (contains u needle || contains v needle) := by
  induction u with
  | nil =>
    have hbegins : needle.isPrefixOf (sep :: v) = needle.isPrefixOf [] :=
      isPrefixOf_append_sep h [] v
    show (needle.isPrefixOf (sep :: v) || contains v needle) = (needle.isEmpty || contains v needle)
    rw [hbegins]
    cases needle with
    | nil => rfl
    | cons => rfl
  | cons b u ih =>
    have hbegins := isPrefixOf_append_sep h (b :: u) v
    rw [List.cons_append] at hbegins ⊢
    rw [contains, hbegins, ih, contains, Bool.or_assoc]

end Bytes

namespace Passthrough

open Bytes

theorem marks_append_newline (line later : Bytes) :
    marksToolUseStop (line ++ 0x0A :: later) =
      (marksToolUseStop line || marksToolUseStop later) := by
  unfold marksToolUseStop
  rw [contains_append_sep (by decide), contains_append_sep (by decide)]
  ac_rfl

/-- The event of a run marks a tool-use stop when one of its lines does. -/
theorem marks_eventOf (run : List Bytes) :
    marksToolUseStop (eventOf run) = run.any marksToolUseStop := by
  unfold eventOf
  induction run with
  | nil => rfl
  | cons line run ih =>
    rw [unlines_cons, List.append_assoc, List.cons_append, marks_append_newline, ih,
      List.any_cons]

/-- What a line that is not blank can say, a line of a run says. -/
theorem any_runs {p : Bytes → Bool} (hp : p [] = false) {run : List Bytes} (h : Dense run)
    (lines : List Bytes) :
    (runs (run ++ lines)).any (fun run => run.any p) = (run ++ lines).any p := by
  induction lines generalizing run with
  | nil =>
    rw [List.append_nil, runs, h.pieces_eq]
    cases run with
    | nil => rfl
    | cons line run => exact Bool.or_false _
  | cons line lines ih =>
    by_cases hline : line = []
    · subst hline
      have hrest := ih dense_nil
      rw [List.nil_append] at hrest
      rw [runs, h.pieces_append_blank, ← List.singleton_append, List.filter_append, List.any_append,
        List.any_append, List.any_cons, hp, Bool.false_or, ← hrest]
      congr 1
      cases run with
      | nil => rfl
      | cons line run => exact Bool.or_false _
    · rw [List.append_cons]
      exact ih (h.append_line hline)

end Passthrough

namespace Transcoder

variable {t : Transcoder}

/-! ## 5. Lines and the end -/

/-- The events of lines in turn and then of the end, each with the line that brought it. A step that
    fails brings nothing. -/
def brought : Transcoder → List Bytes → List (Option Bytes × Bytes)
  | t, [] => (t.taken t.onEnd).events.map (none, ·)
  | t, line :: lines =>
    (t.take line).events.map (some line, ·) ++ brought (t.take line).transcoder lines

/-- The transcoder after these lines and the end. -/
def ended : Transcoder → List Bytes → Transcoder
  | t, [] => (t.taken t.onEnd).transcoder
  | t, line :: lines => ended (t.take line).transcoder lines

/-- **The flag after lines and the end**, by induction on the lines. -/
theorem Steady.stop_iff (h : t.Steady) (lines : List Bytes) :
    (t.ended lines).toolUseStop = true ↔
      t.toolUseStop = true ∨ ∃ a ∈ t.brought lines, t.TellsToolUse a.1 a.2 := by
  induction lines generalizing t with
  | nil =>
    rw [ended, h.settles.2.stop_iff, brought]
    simp
  | cons line lines ih =>
    have hfirst := h.settles.1 line
    rw [ended, ih hfirst.steady, hfirst.stop_iff, brought, or_assoc]
    simp [hfirst.tells_iff, or_and_right, exists_or]

/-- Lines that pass and an end that does bring what was written. -/
theorem brought_of_feed {lines : List Bytes} {fed last : Step Transcoder Bytes}
    (hfed : t.feed lines = .ok fed) (hlast : fed.state.onEnd = .ok last) :
    (t.brought lines).map (·.2) = fed.events ++ last.events ∧ t.ended lines = last.state := by
  induction lines generalizing t fed with
  | nil =>
    cases hfed
    rw [brought, ended, show t.onEnd = .ok last from hlast]
    simp [taken]
  | cons line lines ih =>
    obtain ⟨first, hfirst, rest, hrest, rfl⟩ := Step.feed_cons_iff.mp hfed
    obtain ⟨hbrought, hended⟩ := ih hrest hlast
    rw [brought, ended, take, hfirst]
    refine ⟨?_, hended⟩
    rw [List.map_append, Step.events_andThen, List.append_assoc, ← hbrought]
    simp [taken]

theorem stop_iff_passthrough (lines : List Bytes) :
    ((passthrough {}).ended lines).toolUseStop = true ↔
      ∃ a ∈ (passthrough {}).brought lines, (passthrough {}).TellsToolUse a.1 a.2 := by
  have hfed := feed_holding Passthrough.dense_nil false lines
  rw [List.nil_append, Bool.false_or] at hfed
  obtain ⟨hbrought, hended⟩ := brought_of_feed hfed (onEnd_holding _ _)
  have hevents : ((passthrough {}).brought lines).map (·.2) =
      (Passthrough.runs lines).map Passthrough.eventOf := by
    rw [Passthrough.runs_eq, List.map_append]
    exact hbrought
  have hmarks : (((passthrough {}).brought lines).map (·.2)).any Passthrough.marksToolUseStop =
      lines.any Passthrough.marksToolUseStop := by
    have hruns : (Passthrough.runs lines).any (fun run => run.any Passthrough.marksToolUseStop) =
        lines.any Passthrough.marksToolUseStop :=
      Passthrough.any_runs rfl Passthrough.dense_nil lines
    rw [hevents, List.any_map, ← hruns]
    exact congrArg _ (funext Passthrough.marks_eventOf)
  have hflag : ((passthrough {}).ended lines).toolUseStop =
      lines.any Passthrough.marksToolUseStop := by
    rw [show (passthrough {}).ended lines = _ from hended]
    rfl
  rw [hflag, ← hmarks]
  simp [TellsToolUse]

/-- **The flag says what was brought**, of every transcoder as it is made. -/
theorem Fresh.stop_iff {model : Bytes} (h : Fresh model t) (lines : List Bytes) :
    (t.ended lines).toolUseStop = true ↔ ∃ a ∈ t.brought lines, t.TellsToolUse a.1 a.2 := by
  have hsteady (hs : t.Steady) (hunset : t.toolUseStop = false) :
      (t.ended lines).toolUseStop = true ↔ ∃ a ∈ t.brought lines, t.TellsToolUse a.1 a.2 := by
    rw [hs.stop_iff lines, hunset, or_iff_right Bool.false_ne_true]
  cases h with
  | passthrough => exact stop_iff_passthrough lines
  | openaiToClaude => exact hsteady trivial rfl
  | geminiToClaude => exact hsteady (fun hset => Bool.noConfusion hset) rfl
  | openaiToGemini => exact hsteady trivial rfl
  | claudeToGemini => exact hsteady trivial rfl
  | openaiToReplies n => exact hsteady trivial rfl
  | claudeToReplies n => exact hsteady trivial rfl

/-! ## 6. Failed reads -/

variable {lines : List Bytes} {lost : Option Disconnect}

/-- What was delivered without an error is what was brought, and after a failed read the flag was
    set. -/
theorem brought_of_error_eq_none (h : (t.delivery lines lost).error = none) :
    (t.brought lines).map (·.2) = (t.delivery lines lost).events ∧
      (lost.isSome = true → (t.ended lines).toolUseStop = true) := by
  cases hfed : t.feed lines with
  | error e =>
    obtain ⟨_, _, _, _, -, -, -, hdelivery⟩ := exists_of_feed_error hfed lost
    rw [hdelivery] at h
    cases h
  | ok fed =>
    rw [delivery_of_feed hfed, delivery] at h ⊢
    cases hlast : fed.state.onEnd with
    | error e =>
      rw [hlast] at h
      cases h
    | ok last =>
      rw [hlast] at h
      obtain ⟨hbrought, hended⟩ := brought_of_feed hfed hlast
      refine ⟨hbrought, fun hlost => ?_⟩
      obtain ⟨d, rfl⟩ := Option.isSome_iff_exists.mp hlost
      rw [hended]
      by_contra hunset
      have herror : last.state.endError (some d) = some (.disconnected d) := by
        rw [Bool.not_eq_true] at hunset
        rw [endError, Option.bind_some, hunset]
        rfl
      cases herror.symm.trans h

/-- A transcoder as it is made holds text, unless it answers in the Responses dialect under a name
    that is not UTF-8. -/
theorem Fresh.isText_or {model : Bytes} (h : Fresh model t) :
    t.IsText ∨
      Utf8.valid model = false ∧
        ∃ (source : ToReplies.Source) (n : Nat),
          t = source.transcoder (Identifier.reply n) model := by
  cases hmodel : Utf8.valid model with
  | true => exact .inl (h.isText hmodel)
  | false =>
    cases h with
    | passthrough => exact .inl trivial
    | openaiToClaude => exact .inl OpenAIToClaude.isText_fresh
    | geminiToClaude => exact .inl trivial
    | openaiToGemini => exact .inl OpenAIToGemini.isText_fresh
    | claudeToGemini => exact .inl ClaudeToGemini.isText_fresh
    | openaiToReplies n => exact .inr ⟨rfl, .openai, n, rfl⟩
    | claudeToReplies n => exact .inr ⟨rfl, .claude, n, rfl⟩

/-- Lines that pass leave text. -/
theorem IsText.feed (h : t.IsText) {fed : Step Transcoder Bytes} (hfed : t.feed lines = .ok fed) :
    fed.state.IsText := by
  induction lines generalizing t fed with
  | nil =>
    cases hfed
    exact h
  | cons line lines ih =>
    obtain ⟨first, hfirst, rest, hrest, rfl⟩ := Step.feed_cons_iff.mp hfed
    have hlast : rest.state.IsText := ih ((reaches_of_onLine hfirst).isText h) hrest
    exact hlast

/-- A line over the limit is reported, unless the end itself fails. -/
theorem error_of_tooLong {fed : Step Transcoder Bytes} (hfed : t.feed lines = .ok fed) :
    let error := (t.delivery lines (some LineReader.tooLong)).error
    error = some (.disconnected LineReader.tooLong) ∨
      ¬ t.IsText ∧ error = some .wrongJsonType := by
  intro error
  have herror : error = (fed.state.delivery [] (some LineReader.tooLong)).error := by
    show (t.delivery lines _).error = _
    rw [delivery_of_feed hfed]
    rfl
  rw [herror, delivery]
  cases hlast : fed.state.onEnd with
  | error e =>
    refine .inr ⟨fun htext => ?_, congrArg some ((failsOnly _).onEnd e hlast)⟩
    obtain ⟨last, hok, -⟩ := (htext.feed hfed).survives.ends
    rw [hlast] at hok
    cases hok
  | ok last =>
    have hkept : (last.state.toolUseStop && LineReader.tooLong.byClient) = false :=
      Bool.and_false _
    refine .inl ?_
    dsimp only
    rw [endError, Option.bind_some, hkept]
    rfl

/-- **A stream that ends without an error after a failed read has told the client to call tools.**
    For every transcoder as it is made:

    * after any lines and the end its flag is set exactly when an event was brought that tells the
      client so, failed steps among them or not;
    * for every body, and in every order of steps: if a read failed and there is no error, such an
      event was delivered; and a line over the limit that follows lines which pass is the error,
      unless the end itself fails. That is so only under a name of a model that is not UTF-8, in
      the Responses dialect. -/
theorem quiet_end_tells_tool_use {model : Bytes} (ht : Fresh model t) :
    (∀ lines, (t.ended lines).toolUseStop = true ↔
      ∃ a ∈ t.brought lines, t.TellsToolUse a.1 a.2) ∧
    ∀ (data : Bytes) (chunkSize : Nat) (failure : Option Bytes) (options : Options),
      let body : Body := { rest := data, chunkSize, failure }
      ∃ lines lost, LineReader.Ends { limit := options.maxLineBytes } body lines lost ∧
        ∃ d, (Run.start body t options).ComesTo d ∧
          (lost.isSome = true → d.error = none →
            ∃ a ∈ t.brought lines, t.TellsToolUse a.1 a.2 ∧ a.2 ∈ d.events) ∧
          (lost = some LineReader.tooLong → ∀ fed, t.feed lines = .ok fed →
            d.error = some (.disconnected LineReader.tooLong) ∨
              Utf8.valid model = false ∧
                (∃ (source : ToReplies.Source) (n : Nat),
                  t = source.transcoder (Identifier.reply n) model) ∧
                d.error = some .wrongJsonType) := by
  refine ⟨ht.stop_iff, fun data chunkSize failure options => ?_⟩
  obtain ⟨lines, lost, hends, hcomes⟩ :=
    Run.exists_comesTo { rest := data, chunkSize, failure } rfl options
  refine ⟨lines, lost, hends, _, hcomes t, fun hlost hquiet => ?_, fun hlong fed hfed => ?_⟩
  · obtain ⟨hevents, hset⟩ := brought_of_error_eq_none hquiet
    obtain ⟨a, ha, htells⟩ := (ht.stop_iff lines).mp (hset hlost)
    refine ⟨a, ha, htells, ?_⟩
    rw [← hevents]
    exact List.mem_map_of_mem ha
  · subst hlong
    obtain herror | ⟨htext, herror⟩ := error_of_tooLong hfed
    · exact .inl herror
    · obtain ⟨hmodel, hsource⟩ := ht.isText_or.resolve_left htext
      exact .inr ⟨hmodel, hsource, herror⟩

/-- The connection is lost after an event with the mark of a tool-use stop: there is no error, and
    the event was delivered. -/
theorem quiet_end_tells_tool_use_of_reset :
    let stop := Bytes.ofString "data: \x7b\"stop_reason\":\"tool_use\"\x7d"
    let body : Body :=
      { rest := stop ++ Bytes.ofString "\n\ndata: \x7b"
        failure := some "connection reset by peer" }
    ∃ d, (Run.start body (passthrough {}) Options.default).ComesTo d ∧ d.error = none ∧
      ∃ event ∈ d.events, Passthrough.marksToolUseStop event = true := by
  intro stop body
  obtain ⟨lines, lost, hends, d, hcomes, hquiet, -⟩ :=
    (quiet_end_tells_tool_use (.passthrough : Fresh [] _)).2 body.rest 0 body.failure
      Options.default
  have hread : LineReader.Ends { limit := Options.default.maxLineBytes } body [stop, []]
      body.lastFailure := by
    apply LineReader.Ends.line
    · rw [LineReader.nextLine_of_hungry _ rfl]
      exact LineReader.nextLine_of_line rfl
    apply LineReader.Ends.line
    · exact LineReader.nextLine_of_line rfl
    apply LineReader.Ends.failed
    rw [LineReader.nextLine_of_hungry _ rfl]
    rfl
  obtain ⟨rfl, rfl⟩ := hends.unique hread
  have hnone : d.error = none := by
    obtain ⟨lines, lost, hends, hall⟩ := Run.exists_comesTo body rfl Options.default
    obtain ⟨rfl, rfl⟩ := hends.unique hread
    rw [hcomes.unique (hall _), delivery_passthrough]
    rfl
  obtain ⟨a, -, htells, hmem⟩ := hquiet rfl hnone
  exact ⟨d, hcomes, hnone, a.2, hmem, htells⟩

/-- Under a name that is not UTF-8 the end fails, and its error takes the place of the line over
    the limit. -/
theorem tooLong_not_reported :
    let t := ToReplies.Source.openai.transcoder (Identifier.reply 1) [0xFF]
    let body : Body := { rest := Bytes.ofString "abcdefgh" }
    let options : Options := { Options.default with maxLineBytes := 3 }
    LineReader.Ends { limit := options.maxLineBytes } body [] (some LineReader.tooLong) ∧
      ¬ ∀ r, (Run.start body t options).Reaches r → r.Ended →
        r.slot.error = some (.disconnected LineReader.tooLong) := by
  intro t body options
  have hread : LineReader.Ends { limit := options.maxLineBytes } body []
      (some LineReader.tooLong) := by
    apply LineReader.Ends.failed
    rw [LineReader.nextLine_of_hungry _ rfl]
    exact LineReader.nextLine_of_overLimit rfl
  refine ⟨hread, fun hclaim => ?_⟩
  obtain ⟨lines, lost, hends, hcomes⟩ := Run.exists_comesTo body rfl options
  obtain ⟨rfl, rfl⟩ := hends.unique hread
  obtain ⟨r, hr, hend⟩ := (hcomes t).ends _ .start
  obtain ⟨-, herror⟩ := (hcomes t).outcome r hr hend
  have hfails : (t.delivery [] (some LineReader.tooLong)).error = some .wrongJsonType := rfl
  cases (hclaim r hr hend).symm.trans (herror.trans hfails)

end Transcoder

end ChatRelay
