import ChatRelay.Conversation.Reply
import ChatRelay.Proofs.Reporting
import ChatRelay.Proofs.StreamedBlocks

/-!
# The life of a streamed reply

A stream for a client of the Responses dialect is created, brings its text in pieces, is done and is
completed, in this order and whatever the lines hold (`ReplyEvent.lifecycle`). What the completed
reply tells is what the pieces told, and its usage is that of the backend's stream
(`Source.report`).

* `Writer.Tells` -- the INVARIANT: how far the reply has come with the pieces so far;
* `tells_overChunks` -- every chunk of either backend keeps it;
* `wholeEvents_eq_lifecycle` -- the events of a whole stream;
* `stream_lifecycle` -- the same for what is written, and that a streamed chat completion ends with
  the output and the usage of the whole one.
-/

namespace ChatRelay

/-! ## 1. The events of a reply -/

namespace ReplyEvent

/-- The events of a reply whose text comes in these pieces, before its end: it is announced with
    the first piece. -/
def begun (id model : Bytes) (pieces : List Bytes) : List ReplyEvent :=
  if pieces.isEmpty then [] else .created id model :: pieces.map .textDelta

/-- **The events of a reply**: created, the pieces of its text, done and completed. -/
def lifecycle (id model : Bytes) (pieces : List Bytes) (usage : Usage) : List ReplyEvent :=
  .created id model ::
    (pieces.map .textDelta ++
      [.textDone pieces.flatten, .completed id model pieces.flatten usage])

variable (id : Bytes) {model : Bytes}

theorem begun_append_piece (pieces : List Bytes) (piece : Bytes) :
    begun id model (pieces ++ [piece]) =
      begun id model pieces ++
        ((if pieces.isEmpty then [.created id model] else []) ++ [.textDelta piece]) := by
  cases pieces with
  | nil => rfl
  | cons first rest => simp [begun]

/-- A reply that cannot name its model cannot be announced. -/
theorem render_created_of_not_valid (h : Utf8.valid model = false) :
    render (.created id model) = .error .wrongJsonType := by
  have hfails : (created id model).toJson.isText = false := by
    by_contra htext
    rw [Bool.not_eq_false] at htext
    have hresponse : (created id model).toJson.field? "response" =
        some (replyObject id model "in_progress" [] none) := rfl
    have hnamed : (replyObject id model "in_progress" [] none).field? "model" =
        some (.str model) := rfl
    have hmodel : (Json.str model).isText = true :=
      Json.isText_field? (Json.isText_field? htext hresponse) hnamed
    rw [Json.isText, h] at hmodel
    cases hmodel
  rw [render, Sse.formatEvent, Json.dump, hfails]
  rfl

end ReplyEvent

namespace ToReplies

/-! ## 2. What a backend tells -/

/-- The backends whose streams are turned into replies. -/
inductive Source where
  | openai
  | claude

namespace Source

/-- The transcoder of a new reply. -/
def transcoder (id model : Bytes) : Source → Transcoder
  | openai => .openaiToReplies { id, model }
  | claude => .claudeToReplies { writer := { id, model } }

/-- The text that a chunk tells: the content of the first choice, or the text of a text delta. -/
def textOf (source : Source) (chunk : Json) : Bytes :=
  match source with
  | openai => OpenAI.contentOf chunk
  | claude =>
    let delta := (chunk.field? "delta").getD .null
    if chunk.stringField "type" = "content_block_delta" ∧
        delta.stringField "type" = "text_delta" then
      delta.stringField "text"
    else []

/-- The pieces of text that chunks tell; a chunk without text tells none. -/
def pieces (source : Source) (chunks : List Json) : List Bytes :=
  (chunks.map source.textOf).filter fun piece => !piece.isEmpty

/-- The part of the usage that a Claude event tells. -/
def usagePart? (event : Json) : Option Json :=
  if event.stringField "type" = "message_start" then some (ClaudeUsage.ofMessageStart event)
  else if event.stringField "type" = "message_delta" then some (ClaudeUsage.ofMessageDelta event)
  else none

/-- The usage that chunks tell: of chat completion chunks the last usage object, of Claude events
    the fields of all parts that are objects, the later value of a field instead of an earlier one
    unless it is null. -/
def report (source : Source) (chunks : List Json) : Json :=
  match source with
  | openai => (chunks.filterMap (·.objectField? "usage")).getLast?.getD .null
  | claude =>
    let parts := chunks.filterMap usagePart?
    if parts.any Json.isObject then .object (parts.flatMap Rendering.reported) else .null

variable {source : Source}

theorem pieces_cons (chunk : Json) (chunks : List Json) :
    source.pieces (chunk :: chunks) = source.pieces [chunk] ++ source.pieces chunks :=
  List.filter_append [source.textOf chunk] (chunks.map source.textOf)

theorem flatten_pieces (chunks : List Json) :
    (source.pieces chunks).flatten = chunks.flatMap source.textOf := by
  induction chunks with
  | nil => rfl
  | cons chunk chunks ih =>
    rw [pieces_cons, List.flatten_append, ih, List.flatMap_cons]
    congr 1
    cases htext : source.textOf chunk with
    | nil => simp [pieces, htext]
    | cons b text => simp [pieces, htext]

end Source

/-! ## 3. The writer -/

namespace Writer

variable {id model : Bytes} {pieces : List Bytes} {w : Writer}

/-- How far a reply has come with these pieces. -/
structure Holds (id model : Bytes) (pieces : List Bytes) (w : Writer) : Prop where
  id : w.id = id
  model : w.model = model
  text : w.text = pieces.flatten
  created : w.created = !pieces.isEmpty
  unfinished : w.finished = false

theorem holds_fresh : Holds id model [] { id, model } :=
  ⟨rfl, rfl, rfl, rfl, rfl⟩

/-- The usage does not matter to the rest. -/
theorem Holds.withUsage (h : Holds id model pieces w) (usage : Json) :
    Holds id model pieces { w with usage } :=
  ⟨h.id, h.model, h.text, h.created, h.unfinished⟩

/-- **What a step tells** of a reply that has come as far as the earlier pieces: these pieces, and
    no other. -/
structure Tells (id model : Bytes) (earlier pieces : List Bytes) (step : Step Writer ReplyEvent) :
    Prop where
  holds : Holds id model (earlier ++ pieces) step.state
  events : ReplyEvent.begun id model (earlier ++ pieces) =
    ReplyEvent.begun id model earlier ++ step.events

theorem Holds.tells_nothing (h : Holds id model pieces w) :
    Tells id model pieces [] { state := w } := by
  refine ⟨?_, ?_⟩
  · rw [List.append_nil]
    exact h
  · rw [List.append_nil, List.append_nil]

theorem Holds.ensureCreated (h : Holds id model pieces w) :
    (ensureCreated w).state = { w with created := true } ∧
      (ensureCreated w).events = if pieces.isEmpty then [.created id model] else [] := by
  have hcreated := h.created
  unfold Writer.ensureCreated
  by_cases hempty : pieces.isEmpty = true
  · have hnot : ¬ w.created = true := by simp [hcreated, hempty]
    rw [if_neg hnot, if_pos hempty, h.id, h.model]
    exact ⟨rfl, rfl⟩
  · have hdone : w.created = true := by simp [hcreated, hempty]
    rw [if_pos hdone, if_neg hempty]
    refine ⟨?_, rfl⟩
    rw [← hdone]

/-- A piece of text is told as it is; an empty one is not told. -/
theorem Holds.tells_addText (h : Holds id model pieces w) (piece : Bytes) :
    Tells id model pieces ([piece].filter fun piece => !piece.isEmpty) (addText piece w) := by
  unfold addText
  by_cases hpiece : piece.isEmpty = true
  · have hnone : ([piece].filter fun piece => !piece.isEmpty) = [] := by simp [hpiece]
    rw [if_pos hpiece, hnone]
    exact h.tells_nothing
  · have hone : ([piece].filter fun piece => !piece.isEmpty) = [piece] := by simp [hpiece]
    obtain ⟨hstate, hevents⟩ := h.ensureCreated
    rw [if_neg hpiece, hone]
    refine ⟨?_, ?_⟩
    · rw [Step.state_andThen, hstate]
      exact
        { id := h.id
          model := h.model
          text := by simp [h.text]
          created := by simp
          unfinished := h.unfinished }
    · rw [Step.events_andThen, hevents]
      exact ReplyEvent.begun_append_piece id pieces piece

theorem usage_addText (piece : Bytes) (w : Writer) : (addText piece w).state.usage = w.usage := by
  unfold addText
  by_cases hpiece : piece.isEmpty = true
  · rw [if_pos hpiece]
  · rw [if_neg hpiece, Step.state_andThen]
    unfold Writer.ensureCreated
    split <;> rfl

/-- **At its end a reply is done and completed**, and announced before if it was not yet. -/
theorem Holds.lifecycle_eq (h : Holds id model pieces w) :
    ReplyEvent.begun id model pieces ++ (finish w).events =
      ReplyEvent.lifecycle id model pieces (Usage.ofReport w.usage) := by
  obtain ⟨hstate, hevents⟩ := h.ensureCreated
  have hunfinished : ¬ w.finished = true := by simp [h.unfinished]
  rw [finish, if_neg hunfinished, Step.events_andThen, hevents, hstate, h.text, h.id, h.model]
  cases pieces with
  | nil => rfl
  | cons first rest => simp [ReplyEvent.begun, ReplyEvent.lifecycle]

end Writer

open Writer

/-! ## 4. Runs -/

section

variable {σ : Type} {onChunk : σ → Json → Step σ ReplyEvent} (writer : σ → Writer)
  {source : Source} {id model : Bytes}

/-- **What every chunk tells, all chunks tell.** -/
theorem tells_overChunks
    (hchunk : ∀ {s earlier} chunk, Holds id model earlier (writer s) →
      Tells id model earlier (source.pieces [chunk]) ((onChunk s chunk).mapState writer))
    {s : σ} {earlier : List Bytes} (hs : Holds id model earlier (writer s)) (chunks : List Json) :
    Tells id model earlier (source.pieces chunks)
      ((Step.overChunks onChunk s chunks).mapState writer) := by
  induction chunks generalizing s earlier with
  | nil => exact hs.tells_nothing
  | cons chunk chunks ih =>
    have hfirst := hchunk chunk hs
    have hrest := ih hfirst.holds
    refine ⟨?_, ?_⟩
    · rw [Source.pieces_cons, ← List.append_assoc]
      exact hrest.holds
    · rw [Source.pieces_cons, ← List.append_assoc, hrest.events, hfirst.events, List.append_assoc]
      rfl

end

variable {id model : Bytes} {earlier : List Bytes}

theorem OfOpenai.tells_onChunk {w : Writer} (chunk : Json) (h : Holds id model earlier w) :
    Tells id model earlier (Source.openai.pieces [chunk]) (onChunk w chunk) := by
  have htold := h.withUsage ((chunk.objectField? "usage").getD w.usage)
  show Tells id model earlier ([OpenAI.contentOf chunk].filter _) _
  unfold onChunk OpenAI.contentOf OpenAI.deltaOf?
  cases (chunk.headField? "choices").bind (·.objectField? "delta") with
  | none => exact htold.tells_nothing
  | some delta => exact htold.tells_addText (delta.stringField "content")

theorem OfClaude.tells_onChunk {s : State} (event : Json)
    (h : Holds id model earlier s.writer) :
    Tells id model earlier (Source.claude.pieces [event])
      ((onChunk s event).mapState State.writer) := by
  show Tells id model earlier ([Source.claude.textOf event].filter _) _
  unfold onChunk Source.textOf
  dsimp only
  by_cases hdelta : event.stringField "type" = "content_block_delta"
  · have hstart : ¬ event.stringField "type" = "message_start" := by
      rw [hdelta]
      decide
    by_cases htext : ((event.field? "delta").getD .null).stringField "type" = "text_delta"
    · rw [if_neg hstart, if_pos hdelta, if_pos htext, if_pos ⟨hdelta, htext⟩]
      exact h.tells_addText _
    · rw [if_neg hstart, if_pos hdelta, if_neg htext, if_neg fun hboth => htext hboth.2]
      exact h.tells_nothing
  · rw [if_neg fun hboth => hdelta hboth.1, if_neg hdelta]
    split
    · exact h.tells_nothing
    · split
      · exact h.tells_nothing
      · exact h.tells_nothing

/-! ## 5. Usage -/

/-- The last usage object counts. -/
theorem OfOpenai.usage_overChunks (w : Writer) (chunks : List Json) :
    (Step.overChunks onChunk w chunks).state.usage =
      (chunks.filterMap (·.objectField? "usage")).getLast?.getD w.usage := by
  have hone (w : Writer) (chunk : Json) :
      (onChunk w chunk).state.usage = (chunk.objectField? "usage").getD w.usage := by
    unfold onChunk
    dsimp only
    split
    · rw [usage_addText]
    · rfl
  induction chunks generalizing w with
  | nil => rfl
  | cons chunk chunks ih =>
    rw [Step.overChunks, Step.state_andThen, ih, hone, List.filterMap_cons]
    cases chunk.objectField? "usage" with
    | none => rfl
    | some usage => rw [List.getLast?_cons, Option.getD_some, Option.getD_some]

/-- What parts of a report are merged to. -/
theorem foldl_merge (merged : ClaudeUsage.Merged) (parts : List Json) :
    parts.foldl ClaudeUsage.merge merged =
      if merged.isSome || parts.any Json.isObject then
        some ((parts.flatMap Rendering.reported).foldl (fun t e => Table.insert t e.1 e.2)
          (merged.getD []))
      else none := by
  induction parts generalizing merged with
  | nil => cases merged <;> rfl
  | cons part parts ih =>
    rw [List.foldl_cons, ih, List.any_cons, List.flatMap_cons, List.foldl_append]
    cases part with
    | obj fields =>
      have hany : (merged.isSome || ((Json.obj fields).isObject || parts.any Json.isObject)) =
          true := by simp [Json.isObject]
      rw [hany]
      rfl
    | _ => rfl

theorem Source.report_claude (events : List Json) :
    claude.report events =
      (((events.filterMap usagePart?).foldl ClaudeUsage.merge none).map Json.obj).getD .null := by
  rw [foldl_merge, report, Option.isSome_none, Bool.false_or]
  by_cases hany : (events.filterMap usagePart?).any Json.isObject = true
  · rw [if_pos hany, if_pos hany]
    rfl
  · rw [if_neg hany, if_neg hany]
    rfl

/-- The parts are merged as they come; the writer is told at the end. -/
theorem OfClaude.usage_overChunks (s : State) (events : List Json) :
    (Step.overChunks onChunk s events).state.usage =
        (events.filterMap Source.usagePart?).foldl ClaudeUsage.merge s.usage ∧
      (Step.overChunks onChunk s events).state.writer.usage = s.writer.usage := by
  have hone (s : State) (event : Json) :
      (onChunk s event).state.usage =
          (Source.usagePart? event).toList.foldl ClaudeUsage.merge s.usage ∧
        (onChunk s event).state.writer.usage = s.writer.usage := by
    unfold onChunk Source.usagePart?
    dsimp only
    by_cases hstart : event.stringField "type" = "message_start"
    · rw [if_pos hstart, if_pos hstart]
      exact ⟨rfl, rfl⟩
    by_cases hdelta : event.stringField "type" = "content_block_delta"
    · have hlast : ¬ event.stringField "type" = "message_delta" := by
        rw [hdelta]
        decide
      rw [if_neg hstart, if_neg hstart, if_pos hdelta, if_neg hlast]
      split
      · exact ⟨rfl, usage_addText _ s.writer⟩
      · exact ⟨rfl, rfl⟩
    by_cases hlast : event.stringField "type" = "message_delta"
    · rw [if_neg hstart, if_neg hstart, if_neg hdelta, if_pos hlast, if_pos hlast]
      exact ⟨rfl, rfl⟩
    · rw [if_neg hstart, if_neg hstart, if_neg hdelta, if_neg hlast, if_neg hlast]
      exact ⟨rfl, rfl⟩
  induction events generalizing s with
  | nil => exact ⟨rfl, rfl⟩
  | cons event events ih =>
    obtain ⟨hmerged, hwriter⟩ := ih (onChunk s event).state
    obtain ⟨hmergedOne, hwriterOne⟩ := hone s event
    rw [Step.overChunks, Step.state_andThen, hmerged, hwriter, hmergedOne, hwriterOne,
      ← List.foldl_append]
    refine ⟨?_, rfl⟩
    congr 1
    cases hpart : Source.usagePart? event with
    | none => rw [List.filterMap_cons_none hpart, Option.toList_none, List.nil_append]
    | some part =>
      rw [List.filterMap_cons_some hpart, Option.toList_some, List.singleton_append]

/-! ## 6. Whole streams -/

/-- The end of a stream finishes the reply with this usage. -/
def Finishes {σ : Type} (writer : σ → Writer) (usage : Json) (onEnd : σ → Step σ ReplyEvent)
    (s : σ) : Prop :=
  (onEnd s).events = (finish { writer s with usage }).events

theorem OfOpenai.finishes (lines : List Bytes) :
    Finishes (fun w => w) (Source.openai.report (Chunk.objects lines)) onEnd
      (Step.overChunks onChunk { id, model } (Chunk.objects lines)).state := by
  have husage := usage_overChunks { id, model } (Chunk.objects lines)
  unfold Finishes Source.report
  rw [← husage]
  rfl

theorem OfClaude.events_onEnd {s : State} (h : s.writer.usage = .null) :
    (onEnd s).events =
      (finish { s.writer with usage := (s.usage.map Json.obj).getD .null }).events := by
  have hsame : { s.writer with usage := .null } = s.writer := by rw [← h]
  unfold onEnd
  cases s.usage with
  | some fields => rfl
  | none => exact congrArg (fun w => (finish w).events) hsame.symm

theorem OfClaude.finishes (lines : List Bytes) :
    Finishes State.writer (Source.claude.report (Chunk.objects lines)) onEnd
      (Step.overChunks onChunk { writer := { id, model } } (Chunk.objects lines)).state := by
  obtain ⟨hmerged, hwriter⟩ := usage_overChunks { writer := { id, model } } (Chunk.objects lines)
  rw [Finishes, events_onEnd hwriter, hmerged, Source.report_claude]

section

variable {σ : Type} {wrap : σ → Transcoder} {component : Bytes}
  {onChunk : σ → Json → Step σ ReplyEvent} {onEnd : σ → Step σ ReplyEvent} {writer : σ → Writer}
  {s : σ} {lines pieces : List Bytes} {usage : Json}

/-- **The events of a whole stream** are those of the reply that its chunks tell. -/
theorem wholeEvents_eq_lifecycle
    (htells : Tells id model [] pieces
      ((Step.overChunks onChunk s (Chunk.objects lines)).mapState writer))
    (hend : Finishes writer usage onEnd (Step.overChunks onChunk s (Chunk.objects lines)).state) :
    Step.wholeEvents onChunk onEnd s lines =
      ReplyEvent.lifecycle id model pieces (Usage.ofReport usage) := by
  have hholds := htells.holds.withUsage usage
  have hevents : ReplyEvent.begun id model pieces =
      (Step.overChunks onChunk s (Chunk.objects lines)).events := htells.events
  rw [Step.wholeEvents, hend, ← hevents]
  exact hholds.lifecycle_eq

/-- What is written of a stream: the whole reply when its model can be named, and nothing when it
    cannot. -/
theorem written_lifecycle (htyped : Transcoder.Typed wrap component onChunk onEnd ReplyEvent.render)
    (htells : Tells id model [] pieces
      ((Step.overChunks onChunk s (Chunk.objects lines)).mapState writer))
    (hend : Finishes writer usage onEnd (Step.overChunks onChunk s (Chunk.objects lines)).state)
    (htext : Utf8.valid model = true →
      ∀ e ∈ (onEnd (Step.overChunks onChunk s (Chunk.objects lines)).state).events,
        e.isText = true)
    {fed : Step Transcoder Bytes} (hfed : (wrap s).feed lines = .ok fed) :
    (Utf8.valid model = true → ∃ last, fed.state.onEnd = .ok last ∧
      (ReplyEvent.lifecycle id model pieces (Usage.ofReport usage)).mapM ReplyEvent.render =
        .ok (fed.events ++ last.events)) ∧
    (Utf8.valid model = false →
      fed.events = [] ∧ fed.state.onEnd = .error .wrongJsonType) := by
  obtain ⟨hwritten, hstate⟩ := Transcoder.run_of_feed htyped hfed
  have hwhole := wholeEvents_eq_lifecycle htells hend
  have honEnd : fed.state.onEnd = Transcoder.write ReplyEvent.render wrap (onEnd _) :=
    hstate ▸ htyped.onEnd_eq _
  refine ⟨fun hmodel => ?_, fun hmodel => ?_⟩
  · obtain ⟨ends, hends⟩ :=
      mapM_eq_ok_of_forall fun e he => ReplyEvent.exists_render (htext hmodel e he)
    refine ⟨_, honEnd.trans (Transcoder.write_eq_ok_iff.mpr ⟨ends, hends, rfl⟩), ?_⟩
    rw [← hwhole]
    exact mapM_append_eq_ok_iff.mpr ⟨_, hwritten, ends, hends, rfl⟩
  · -- whatever comes first is the announcement, which names the model
    have hcreated := ReplyEvent.render_created_of_not_valid id hmodel
    have hevents : ReplyEvent.begun id model pieces =
        (Step.overChunks onChunk s (Chunk.objects lines)).events := htells.events
    rw [Step.wholeEvents, ← hevents] at hwhole
    rw [← hevents] at hwritten
    cases pieces with
    | nil =>
      refine ⟨(Except.ok.inj hwritten).symm, ?_⟩
      rw [honEnd, Transcoder.write, show (onEnd _).events = _ from hwhole, ReplyEvent.lifecycle,
        List.mapM_cons, hcreated]
      rfl
    | cons first rest =>
      rw [ReplyEvent.begun, List.isEmpty_cons, if_neg Bool.false_ne_true, List.mapM_cons,
        hcreated] at hwritten
      cases hwritten

end

/-- A chat completion whose first choice holds this text, and chunks that stream it: the text in any
    pieces, and the usage in one of the chunks if the completion tells any. -/
structure Streams (reply : Json) (text : Bytes) (chunks : List Json) : Prop where
  content : ∃ choice message, reply.headField? "choices" = some choice ∧
    choice.field? "message" = some message ∧ message.field? "content" = some (.str text)
  text : chunks.flatMap OpenAI.contentOf = text
  usage : chunks.filterMap (·.objectField? "usage") = (reply.objectField? "usage").toList

/-- The completed reply of a stream tells the output and the usage of the reply object `whole`. -/
def AgreesAtEnd (whole : Json) (completed : ReplyEvent) : Prop :=
  ∃ response output usage, completed.toJson.field? "response" = some response ∧
    whole.field? "output" = some output ∧ response.field? "output" = some output ∧
    whole.field? "usage" = some usage ∧ response.field? "usage" = some usage

/-- A usage report that is no object is as good as none. -/
theorem ofReport_objectField? (reply : Json) (key : Bytes) :
    Usage.ofReport ((reply.objectField? key).getD .null) =
      Usage.ofReport ((reply.field? key).getD .null) := by
  unfold Json.objectField?
  cases reply.field? key with
  | none => rfl
  | some report =>
    cases report with
    | obj fields => rfl
    | _ => rfl

/-- **A streamed chat completion ends like the whole one.** -/
theorem Streams.agreesAtEnd {reply : Json} {text : Bytes} {chunks : List Json}
    (h : Streams reply text chunks) (previousId replyId : Bytes) :
    ∃ whole, Reply.ofOpenai reply previousId replyId = .ok whole ∧
      AgreesAtEnd whole (.completed id model (Source.openai.pieces chunks).flatten
        (Usage.ofReport (Source.openai.report chunks))) := by
  obtain ⟨choice, message, hchoice, hmessage, hcontent⟩ := h.content
  have hitems : Reply.itemsOfOpenai reply = [Item.ofText text] := by
    simp [Reply.itemsOfOpenai, hchoice, hmessage, Json.stringField, Json.stringFieldD, hcontent]
  have htext : (Source.openai.pieces chunks).flatten = text :=
    (Source.flatten_pieces chunks).trans h.text
  have husage : Usage.ofReport (Source.openai.report chunks) =
      Usage.ofReport ((reply.field? "usage").getD .null) := by
    rw [← ofReport_objectField?, Source.report, h.usage]
    cases reply.objectField? "usage" <;> rfl
  have hwhole : Reply.ofOpenai reply previousId replyId =
      .ok (Reply.envelope replyId (reply.stringField "model") [Item.ofText text]
        ((reply.field? "usage").getD .null) previousId) := by
    rw [← hitems]
    cases reply with
    | obj fields => rfl
    | _ => cases hchoice
  rw [htext, husage]
  refine ⟨_, hwhole, _, .arr [(Item.ofText text).toJson], _, rfl, ?_, rfl, ?_, rfl⟩
  · exact Json.field?_objectWith rfl
  · exact Json.field?_objectWith rfl

/-- **The life of a streamed reply**, for every stream whose lines pass and from either backend. Its
    events are those of `ReplyEvent.lifecycle` if its model can be named; if not, nothing is written
    and the end fails. A streamed chat completion ends with the output and the usage of the whole
    one. -/
theorem stream_lifecycle (source : Source) (n : Nat) (model : Bytes) (lines : List Bytes)
    {fed : Step Transcoder Bytes}
    (hfed : (source.transcoder (Identifier.reply n) model).feed lines = .ok fed) :
    let pieces := source.pieces (Chunk.objects lines)
    let usage := Usage.ofReport (source.report (Chunk.objects lines))
    (Utf8.valid model = true → ∃ last, fed.state.onEnd = .ok last ∧
      (ReplyEvent.lifecycle (Identifier.reply n) model pieces usage).mapM ReplyEvent.render =
        .ok (fed.events ++ last.events)) ∧
    (Utf8.valid model = false →
      fed.events = [] ∧ fed.state.onEnd = .error .wrongJsonType) ∧
    (∀ reply text previousId replyId, source = .openai →
      Streams reply text (Chunk.objects lines) →
      ∃ whole, Reply.ofOpenai reply previousId replyId = .ok whole ∧
        AgreesAtEnd whole (.completed (Identifier.reply n) model pieces.flatten usage)) := by
  intro pieces usage
  have htext := Chunk.isText_of_mem_objects lines
  have hend : ∀ reply text previousId replyId, source = .openai →
      Streams reply text (Chunk.objects lines) →
      ∃ whole, Reply.ofOpenai reply previousId replyId = .ok whole ∧
        AgreesAtEnd whole (.completed (Identifier.reply n) model pieces.flatten usage) := by
    intro reply text previousId replyId hsource hstreams
    subst hsource
    exact hstreams.agreesAtEnd previousId replyId
  rw [← and_assoc]
  refine ⟨?_, hend⟩
  cases source with
  | openai =>
    refine written_lifecycle Transcoder.typed_openaiToReplies
      (tells_overChunks (fun w => w) OfOpenai.tells_onChunk holds_fresh _)
      (OfOpenai.finishes lines) (fun hmodel => ?_) hfed
    have hfresh : Writer.IsText { id := Identifier.reply n, model } :=
      (Transcoder.Fresh.openaiToReplies n).isText hmodel
    exact (OfOpenai.keepsText.onEnd _ (OfOpenai.keepsText.overChunks hfresh htext).state).events
  | claude =>
    refine written_lifecycle Transcoder.typed_claudeToReplies
      (tells_overChunks OfClaude.State.writer OfClaude.tells_onChunk holds_fresh _)
      (OfClaude.finishes lines) (fun hmodel => ?_) hfed
    have hfresh : OfClaude.State.IsText { writer := { id := Identifier.reply n, model } } :=
      (Transcoder.Fresh.claudeToReplies n).isText hmodel
    exact (OfClaude.keepsText.onEnd _ (OfClaude.keepsText.overChunks hfresh htext).state).events

/-- A text in two pieces, and the usage between them. -/
theorem stream_lifecycle_usage_between :
    let lines : List Bytes :=
      [Bytes.ofString "data: \x7b\"choices\":[\x7b\"delta\":\x7b\"content\":\"a\"\x7d\x7d]\x7d",
        [],
        Bytes.ofString "data: \x7b\"choices\":[],\"usage\":\x7b\"prompt_tokens\":3\x7d\x7d",
        Bytes.ofString "data: \x7b\"choices\":[\x7b\"delta\":\x7b\"content\":\"b\"\x7d\x7d]\x7d"]
    let usage : Json := .object [("prompt_tokens", .int 3)]
    let reply : Json :=
      .object [("choices", .arr [.object [("message", .object [("content", .str "ab")])]]),
        ("usage", usage)]
    ∃ fed, (Source.openai.transcoder (Identifier.reply 0) "m").feed lines = .ok fed ∧
      fed.events.length = 3 ∧
      (∃ last, fed.state.onEnd = .ok last ∧
        (ReplyEvent.lifecycle (Identifier.reply 0) "m" ["a", "b"]
          (Usage.ofReport usage)).mapM ReplyEvent.render = .ok (fed.events ++ last.events)) ∧
      ∃ whole, Reply.ofOpenai reply [] "r" = .ok whole ∧
        AgreesAtEnd whole (.completed (Identifier.reply 0) "m" "ab" (Usage.ofReport usage)) := by
  intro lines usage reply
  have hthree : ((Source.openai.transcoder (Identifier.reply 0) "m").feed lines).toOption.map
      (·.events.length) = some 3 := by decide +kernel
  obtain ⟨fed, hfed, hlength⟩ := exists_of_toOption_map hthree
  have hpieces : Source.openai.pieces (Chunk.objects lines) = ["a", "b"] := by decide +kernel
  have husage : Source.openai.report (Chunk.objects lines) = usage := by decide +kernel
  have hstreams : Streams reply "ab" (Chunk.objects lines) :=
    { content := ⟨_, _, rfl, rfl, rfl⟩
      text := by decide +kernel
      usage := by decide +kernel }
  obtain ⟨hwritten, -, hend⟩ := stream_lifecycle .openai 0 "m" lines hfed
  rw [hpieces, husage] at hwritten hend
  exact ⟨fed, hfed, hlength, hwritten rfl, hend reply "ab" [] "r" rfl hstreams⟩

/-- A model that cannot be named: every line passes, and yet there is no reply. -/
theorem no_lifecycle_of_unnamed_model :
    ∃ fed, (Source.openai.transcoder (Identifier.reply 0) [0xFF]).feed [] = .ok fed ∧
      fed.events = [] ∧ fed.state.onEnd = .error .wrongJsonType ∧
      ¬ ∃ last pieces usage, fed.state.onEnd = .ok last ∧
        (ReplyEvent.lifecycle (Identifier.reply 0) [0xFF] pieces usage).mapM ReplyEvent.render =
          .ok (fed.events ++ last.events) := by
  have hend : (Source.openai.transcoder (Identifier.reply 0) [0xFF]).onEnd =
      .error .wrongJsonType := by
    have hcreated := ReplyEvent.render_created_of_not_valid (Identifier.reply 0)
      (show Utf8.valid [0xFF] = false from rfl)
    have hevents : (OfOpenai.onEnd { id := Identifier.reply 0, model := [0xFF] }).events =
        ReplyEvent.lifecycle (Identifier.reply 0) [0xFF] [] {} := rfl
    show Transcoder.write _ _ _ = _
    rw [Transcoder.write, hevents, ReplyEvent.lifecycle, List.mapM_cons, hcreated]
    rfl
  refine ⟨_, rfl, rfl, hend, ?_⟩
  intro hreply
  obtain ⟨last, pieces, usage, hlast, -⟩ := hreply
  have herror := hend.symm.trans hlast
  cases herror

end ToReplies

end ChatRelay
