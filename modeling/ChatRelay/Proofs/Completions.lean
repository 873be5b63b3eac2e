import ChatRelay.Proofs.Endings
import ChatRelay.Proofs.Framing
import ChatRelay.Proofs.Lifecycle

/-!
# When a streamed reply says that it is completed

A stream for a client of the Responses dialect says so at its end, and it comes to its end when no
line reports an error and its model can be named. A body that fails is an end as well: the reply is
completed then, and the error follows it.

* `ReplyEvent.SaysCompleted` -- the events that say so;
* `Source.exists_writer` -- the writer behind a stream whose lines passed;
* `Source.saysCompleted_iff` -- for the lines of a stream and the failure that ended their reading;
* `Source.completed_without_error_iff` -- for every body, and when the error is none.
-/

namespace ChatRelay

/-! ## 1. Events -/

namespace ReplyEvent

/-- A written event that says that its reply is completed. -/
def SaysCompleted (event : Bytes) : Prop :=
  ∃ id model text usage, (completed id model text usage).render = .ok event

/-- An event is written under its name. -/
theorem name_eq_of_render {e e' : ReplyEvent} {text : Bytes} (h : e.render = .ok text)
    (h' : e'.render = .ok text) : e.name = e'.name := by
  obtain ⟨data, -, rfl⟩ := map_eq_ok_iff.mp h
  obtain ⟨data', -, heq⟩ := map_eq_ok_iff.mp h'
  exact (Sse.event_inj e'.plain_name e.plain_name heq).1.symm

/-- A reply that has only begun is not completed. -/
theorem not_saysCompleted_of_begun {id model : Bytes} {pieces texts : List Bytes}
    (h : (begun id model pieces).mapM render = .ok texts) :
    ¬ ∃ event ∈ texts, SaysCompleted event := by
  rintro ⟨event, hevent, id', model', text, usage, hrender⟩
  obtain ⟨e, he, hwritten⟩ := exists_mem_of_mapM_ok h event hevent
  have hname := name_eq_of_render hwritten hrender
  unfold begun at he
  split at he
  · cases he
  · rcases List.mem_cons.mp he with rfl | he
    · have hcreated : Bytes.ofString "response.created" = Bytes.ofString "response.completed" :=
        hname
      exact absurd hcreated (by decide)
    · obtain ⟨piece, -, rfl⟩ := List.mem_map.mp he
      have hdelta : Bytes.ofString "response.output_text.delta" =
          Bytes.ofString "response.completed" := hname
      exact absurd hdelta (by decide)

/-- A completed reply names its model. -/
theorem valid_of_render_completed {id model text event : Bytes} {usage : Usage}
    (h : (completed id model text usage).render = .ok event) : Utf8.valid model = true := by
  obtain ⟨data, hdump, -⟩ := map_eq_ok_iff.mp h
  have htext := (Json.of_dump hdump).1
  have hresponse : (completed id model text usage).toJson.field? "response" =
      some (replyObject id model "completed"
        [.object [("type", .str "text"), ("content", .str text)]] (some usage)) := rfl
  have hnamed : (replyObject id model "completed"
      [.object [("type", .str "text"), ("content", .str text)]] (some usage)).field? "model" =
        some (.str model) := rfl
  exact Json.isText_field? (Json.isText_field? htext hresponse) hnamed

end ReplyEvent

open ReplyEvent (SaysCompleted)

/-! ## 2. Lines that pass -/

namespace Transcoder

/-- Lines that report no error pass a transcoder that holds text. -/
theorem IsText.exists_feed {t : Transcoder} (h : t.IsText) {lines : List Bytes}
    (hlines : ∀ line ∈ lines, ¬ Chunk.Reports line) :
    ∃ fed, t.feed lines = .ok fed ∧ fed.state.IsText := by
  induction lines generalizing t with
  | nil => exact ⟨_, rfl, h⟩
  | cons line lines ih =>
    obtain ⟨hline, hrest⟩ := List.forall_mem_cons.mp hlines
    obtain ⟨first, hfirst, htext⟩ := h.survives.goesOn line fun _ => hline
    obtain ⟨rest, hfed, hlast⟩ := ih htext hrest
    exact ⟨_, Step.feed_cons_iff.mpr ⟨first, hfirst, rest, hfed, rfl⟩, hlast⟩

/-- Lines that pass a transcoder which reads them report no error. -/
theorem Typed.not_reports_of_feed {σ ε : Type} {render : ε → Except RelayError Bytes}
    {wrap : σ → Transcoder} {component : Bytes} {onChunk : σ → Json → Step σ ε}
    {onEnd : σ → Step σ ε} (h : Typed wrap component onChunk onEnd render) {s : σ}
    {lines : List Bytes} {fed : Step Transcoder Bytes} (hfed : (wrap s).feed lines = .ok fed) :
    ∀ line ∈ lines, ¬ Chunk.Reports line := by
  obtain ⟨step, hstep, -⟩ := (feed_write_iff h.onLine_eq).mp hfed
  exact Step.not_reports_of_feed hstep

end Transcoder

namespace ToReplies

open Writer

/-- The end of a reply completes it. -/
theorem Writer.Holds.exists_completed {id model : Bytes} {pieces : List Bytes} {w : Writer}
    (h : Holds id model pieces w) :
    ∃ text usage, ReplyEvent.completed id model text usage ∈ (finish w).events := by
  refine ⟨pieces.flatten, Usage.ofReport w.usage, ?_⟩
  have hmem : ReplyEvent.completed id model pieces.flatten (Usage.ofReport w.usage) ∈
      ReplyEvent.begun id model pieces ++ (finish w).events := by
    rw [h.lifecycle_eq]
    simp [ReplyEvent.lifecycle]
  refine (List.mem_append.mp hmem).resolve_left fun hbegun => ?_
  unfold ReplyEvent.begun at hbegun
  split at hbegun
  · cases hbegun
  · simp at hbegun

/-- An end that was written says that the reply is completed, and names its model. -/
theorem Writer.Holds.exists_saysCompleted {id model : Bytes} {pieces : List Bytes} {w : Writer}
    {wrap : Writer → Transcoder} {last : Step Transcoder Bytes} (h : Holds id model pieces w)
    (hlast : Transcoder.write ReplyEvent.render wrap (finish w) = .ok last) :
    (∃ event ∈ last.events, SaysCompleted event) ∧ Utf8.valid model = true := by
  obtain ⟨events, hevents, rfl⟩ := Transcoder.write_eq_ok_iff.mp hlast
  obtain ⟨text, usage, hcompleted⟩ := h.exists_completed
  obtain ⟨event, hevent, hrender⟩ := exists_mem_of_mem_mapM hevents hcompleted
  exact ⟨⟨event, hevent, _, _, _, _, hrender⟩, ReplyEvent.valid_of_render_completed hrender⟩

/-- At its end a Claude stream finishes its reply, with the usage that it has come to know. -/
theorem OfClaude.exists_onEnd (s : State) :
    ∃ usage, onEnd s =
      (finish { s.writer with usage }).mapState fun w => { s with writer := w } := by
  unfold onEnd
  cases s.usage with
  | none => exact ⟨s.writer.usage, rfl⟩
  | some fields => exact ⟨_, rfl⟩

namespace Source

variable (source : Source) {id model : Bytes} {lines : List Bytes}

/-- **The writer behind a stream whose lines passed**: it holds the pieces of text that they told,
    what was written is the reply that has begun with them, and the end finishes it. -/
theorem exists_writer {fed : Step Transcoder Bytes}
    (hfed : (source.transcoder id model).feed lines = .ok fed) :
    ∃ (w : Writer) (wrap : Writer → Transcoder),
      Holds id model (source.pieces (Chunk.objects lines)) w ∧
      (ReplyEvent.begun id model (source.pieces (Chunk.objects lines))).mapM ReplyEvent.render =
        .ok fed.events ∧
      fed.state.onEnd = Transcoder.write ReplyEvent.render wrap (finish w) ∧
      (∀ w, (wrap w).toolUseStop = false) ∧ ∀ line ∈ lines, ¬ Chunk.Reports line := by
  cases source with
  | openai =>
    have htyped := Transcoder.typed_openaiToReplies
    obtain ⟨hwritten, hstate⟩ := Transcoder.run_of_feed htyped hfed
    obtain ⟨hholds, hevents⟩ :=
      tells_overChunks (fun w => w) OfOpenai.tells_onChunk
        (holds_fresh : Holds id model [] { id, model }) (Chunk.objects lines)
    refine ⟨_, Transcoder.openaiToReplies, hholds, ?_, hstate ▸ htyped.onEnd_eq _, fun _ => rfl,
      htyped.not_reports_of_feed hfed⟩
    rw [← hwritten]
    exact congrArg (List.mapM ReplyEvent.render) hevents
  | claude =>
    have htyped := Transcoder.typed_claudeToReplies
    obtain ⟨hwritten, hstate⟩ := Transcoder.run_of_feed htyped hfed
    obtain ⟨hholds, hevents⟩ :=
      tells_overChunks OfClaude.State.writer OfClaude.tells_onChunk
        (s := { writer := { id, model } }) holds_fresh (Chunk.objects lines)
    generalize Step.overChunks OfClaude.onChunk { writer := { id, model } }
      (Chunk.objects lines) = run at *
    obtain ⟨usage, hend⟩ := OfClaude.exists_onEnd run.state
    refine ⟨_, fun w => .claudeToReplies { run.state with writer := w }, hholds.withUsage usage,
      ?_, ?_, fun _ => rfl, htyped.not_reports_of_feed hfed⟩
    · rw [← hwritten]
      exact congrArg (List.mapM ReplyEvent.render) hevents
    · rw [hstate, htyped.onEnd_eq, hend]
      rfl

theorem isText_transcoder (n : Nat) (hmodel : Utf8.valid model = true) :
    (source.transcoder (Identifier.reply n) model).IsText := by
  cases source with
  | openai => exact (Transcoder.Fresh.openaiToReplies n).isText hmodel
  | claude => exact (Transcoder.Fresh.claudeToReplies n).isText hmodel

/-- **A stream says that its reply is completed** exactly when its model can be named and no line
    reports an error, and then its error is the failure that ended the reading. -/
theorem saysCompleted_iff (n : Nat) (model : Bytes) (lines : List Bytes)
    (lost : Option Disconnect) :
    let d := (source.transcoder (Identifier.reply n) model).delivery lines lost
    ((∃ event ∈ d.events, SaysCompleted event) ↔
      Utf8.valid model = true ∧ ∀ line ∈ lines, ¬ Chunk.Reports line) ∧
    ((∃ event ∈ d.events, SaysCompleted event) → d.error = lost.map .disconnected) := by
  intro d
  cases hfed : (source.transcoder (Identifier.reply n) model).feed lines with
  | error e =>
    -- a line fails before the end, so that the reply has only begun
    obtain ⟨before, line, later, fed, -, hbefore, -, hd⟩ :=
      Transcoder.exists_of_feed_error hfed lost
    obtain ⟨w, wrap, -, hbegun, -⟩ := source.exists_writer hbefore
    have hnone : ¬ ∃ event ∈ d.events, SaysCompleted event := by
      show ¬ ∃ event ∈ (Transcoder.delivery _ _ _).events, _
      rw [hd]
      exact ReplyEvent.not_saysCompleted_of_begun hbegun
    refine ⟨⟨fun h => absurd h hnone, fun h => ?_⟩, fun h => absurd h hnone⟩
    obtain ⟨fed, hok, -⟩ := (source.isText_transcoder n h.1).exists_feed h.2
    rw [hfed] at hok
    cases hok
  | ok fed =>
    obtain ⟨w, wrap, hholds, hbegun, honEnd, hquiet, hlines⟩ := source.exists_writer hfed
    have hd : d = (fed.state.delivery [] lost).after fed.events :=
      Transcoder.delivery_of_feed hfed lost
    rw [Transcoder.delivery] at hd
    cases hlast : fed.state.onEnd with
    | error e =>
      have hnone : ¬ ∃ event ∈ d.events, SaysCompleted event := by
        rw [hd, hlast, Delivery.after, List.append_nil]
        exact ReplyEvent.not_saysCompleted_of_begun hbegun
      refine ⟨⟨fun h => absurd h hnone, fun h => ?_⟩, fun h => absurd h hnone⟩
      obtain ⟨fed', hfed', hgood⟩ := (source.isText_transcoder n h.1).exists_feed h.2
      obtain rfl := Except.ok.inj (hfed.symm.trans hfed')
      obtain ⟨last, hok, -⟩ := hgood.survives.ends
      rw [hlast] at hok
      cases hok
    | ok last =>
      have hwrite := honEnd.symm.trans hlast
      obtain ⟨⟨event, hevent, hcompleted⟩, hmodel⟩ := hholds.exists_saysCompleted hwrite
      rw [hlast] at hd
      have htold : ∃ event ∈ d.events, SaysCompleted event := by
        rw [hd]
        exact ⟨event, List.mem_append_right _ hevent, hcompleted⟩
      have herror : d.error = lost.map .disconnected := by
        obtain ⟨events, -, rfl⟩ := Transcoder.write_eq_ok_iff.mp hwrite
        rw [hd]
        show Transcoder.endError (wrap _) lost = _
        unfold Transcoder.endError
        rw [hquiet]
        cases lost <;> rfl
      exact ⟨⟨fun _ => ⟨hmodel, hlines⟩, fun _ => htold⟩, fun _ => herror⟩

/-- **When a stream that says so has really completed.** For every body and in every order of steps:

    * the consumer is told that the reply is completed exactly when its model can be named and no
      line reports an error, and then the error is the failure that ended the reading;
    * so there is no error then, unless the body failed after lines of which none reports an error;
      that is the one case in which a reply is completed and the stream ends with an error. -/
theorem completed_without_error_iff (n : Nat) (model data : Bytes) (chunkSize : Nat)
    (failure : Option Bytes) (options : Options) :
    let body : Body := { rest := data, chunkSize, failure }
    ∃ lines lost, LineReader.Ends { limit := options.maxLineBytes } body lines lost ∧
      ∃ d, (Run.start body (source.transcoder (Identifier.reply n) model) options).ComesTo d ∧
        ((∃ event ∈ d.events, SaysCompleted event) ↔
          Utf8.valid model = true ∧ ∀ line ∈ lines, ¬ Chunk.Reports line) ∧
        ((∃ event ∈ d.events, SaysCompleted event) → d.error = lost.map .disconnected) ∧
        (((∃ event ∈ d.events, SaysCompleted event) → d.error = none) ↔
          lost = none ∨ Utf8.valid model = false ∨ ∃ line ∈ lines, Chunk.Reports line) := by
  intro body
  obtain ⟨lines, lost, hends, hcomes⟩ := Run.exists_comesTo body rfl options
  obtain ⟨htold, herror⟩ :=
    source.saysCompleted_iff n model lines lost
  refine ⟨lines, lost, hends, _, hcomes _, htold, herror,
    fun hnone => ?_, fun hcase hcompleted => ?_⟩
  · by_contra hcase
    simp only [not_or, Bool.not_eq_false, not_exists, not_and] at hcase
    obtain ⟨hlost, hmodel, hlines⟩ := hcase
    have hcompleted := htold.mpr ⟨hmodel, hlines⟩
    rw [herror hcompleted, Option.map_eq_none_iff] at hnone
    exact hlost (hnone hcompleted)
  · obtain ⟨hmodel, hlines⟩ := htold.mp hcompleted
    rcases hcase with hlost | hinvalid | ⟨line, hline, hreports⟩
    · rw [herror hcompleted, hlost]
      rfl
    · rw [hmodel] at hinvalid
      cases hinvalid
    · exact absurd hreports (hlines line hline)

/-- A body that is cut off within its second chunk: the consumer is told that the reply is completed
    with the text so far, and then that the connection was lost. -/
theorem completed_before_disconnect :
    let body : Body :=
      { rest := Bytes.ofString
          ("data: \x7b\"choices\":[\x7b\"delta\":\x7b\"content\":\"Hel\"\x7d\x7d]\x7d\n\n" ++
            "data: \x7b\"choi")
        failure := some "connection reset by peer" }
    let stream := Run.start body (Source.openai.transcoder (Identifier.reply 1) "m") Options.default
    ¬ ∀ r, stream.Reaches r → r.Ended → (∃ event ∈ r.received, SaysCompleted event) →
      r.slot.error = none := by
  intro body stream hclaim
  have hfit : Bytes.SegmentsFit Options.default.maxLineBytes body.rest := by
    unfold Bytes.SegmentsFit
    decide +kernel
  have hcomes := Run.comesTo_lines body rfl hfit
    (Source.openai.transcoder (Identifier.reply 1) "m")
  have hlines : ∀ line ∈ body.rest.bodyLines false, ¬ Chunk.Reports line := by
    have heq : body.rest.bodyLines false =
        [Bytes.ofString "data: \x7b\"choices\":[\x7b\"delta\":\x7b\"content\":\"Hel\"\x7d\x7d]\x7d",
          []] := by decide +kernel
    rw [heq, List.forall_mem_cons, List.forall_mem_singleton]
    refine ⟨Chunk.not_reports_of_data? (by decide +kernel), ?_⟩
    rintro ⟨report, hreport⟩
    cases hreport
  obtain ⟨htold, herror⟩ := Source.openai.saysCompleted_iff 1 "m" (body.rest.bodyLines false)
    body.lastFailure
  have hcompleted := htold.mpr ⟨rfl, hlines⟩
  obtain ⟨r, hr, hend⟩ := hcomes.ends stream .start
  obtain ⟨hreceived, hslot⟩ := hcomes.outcome r hr hend
  have hnone := hclaim r hr hend (by rw [hreceived]; exact hcompleted)
  have hlost := (herror hcompleted).symm.trans (hslot.symm.trans hnone)
  cases hlost

end Source

end ToReplies

end ChatRelay
