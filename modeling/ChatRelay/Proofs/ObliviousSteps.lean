import ChatRelay.Proofs.Completions
import ChatRelay.Proofs.RedactedValues
import ChatRelay.Proofs.ToolUseStops

/-!
# Steps that do not tell the payload

Two transcoders that differ in payload only, on lines that differ in payload only, write the same to
the log and differ in payload only afterwards; and one fails when the other does. So a step of a
transcoder is compared with a step of another one (`Step.Akin`), and no event occurs in it.

* `Transcoder.Oblivious` -- the same for every chunk and the end, with a relation of states for each
  transcoder: what the log and the tool-use stop depend on is the same in both;
* `Transcoder.Akin` -- the INVARIANT on a pair of transcoders;
* `Transcoder.Akin.onLine`, `Transcoder.Akin.onEnd` -- the outcomes of their steps
  (`SameOutcome`): only the text of a reported error can differ.
-/

namespace ChatRelay

open Json (Akin)

namespace Step

variable {σ τ ε : Type} {R : σ → σ → Prop} {R' : τ → τ → Prop}
  {render : ε → Except RelayError Bytes}

/-- Steps to related states that write the same to the log. -/
structure Akin (R : σ → σ → Prop) (a b : Step σ ε) : Prop where
  state : R a.state b.state
  log_eq : a.log = b.log

theorem Akin.rfl (a : Step σ ε) : a.Akin Eq a :=
  ⟨Eq.refl _, Eq.refl _⟩

theorem Akin.andThen {first first' : Step σ ε} (h : first.Akin R first')
    {next next' : σ → Step τ ε} (hnext : ∀ s s', R s s' → (next s).Akin R' (next' s')) :
    (first.andThen next).Akin R' (first'.andThen next') where
  state := (hnext _ _ h.state).state
  log_eq := by
    show first.log ++ (next first.state).log = first'.log ++ (next' first'.state).log
    rw [h.log_eq, (hnext _ _ h.state).log_eq]

/-- Whether all events of a step can be written. -/
def Written (render : ε → Except RelayError Bytes) (step : Step σ ε) : Prop :=
  ∀ e ∈ step.events, ∃ text, render e = .ok text

theorem Writes.written {good : σ → Prop} {isText : ε → Bool} {step : Step σ ε}
    (h : step.Writes good isText) (hrender : ∀ e, isText e = true → ∃ text, render e = .ok text) :
    step.Written render :=
  fun e he => hrender e (h.events e he)

/-- Akin steps of which one is written when the other is. -/
structure Parallel (R : σ → σ → Prop) (render : ε → Except RelayError Bytes) (a b : Step σ ε) :
    Prop extends Akin R a b where
  written_iff : a.Written render ↔ b.Written render

theorem Parallel.andThen {first first' : Step σ ε} (h : first.Parallel R render first')
    {next next' : σ → Step τ ε} (hnext : ∀ s s', R s s' → (next s).Parallel R' render (next' s')) :
    (first.andThen next).Parallel R' render (first'.andThen next') where
  toAkin := h.toAkin.andThen fun s s' hs => (hnext s s' hs).toAkin
  written_iff := by
    unfold Written
    rw [events_andThen, events_andThen, List.forall_mem_append, List.forall_mem_append]
    exact and_congr h.written_iff (hnext _ _ h.state).written_iff

theorem Parallel.mapState {a b : Step σ ε} (h : a.Parallel R render b) {f f' : σ → τ}
    (hf : ∀ s s', R s s' → R' (f s) (f' s')) : (a.mapState f).Parallel R' render (b.mapState f') :=
  ⟨⟨hf _ _ h.state, h.log_eq⟩, h.written_iff⟩

end Step

namespace Transcoder

variable {σ ε : Type} {R : σ → σ → Prop} {render : ε → Except RelayError Bytes}
  {wrap : σ → Transcoder} {onChunk : σ → Json → Step σ ε} {onEnd : σ → Step σ ε}

/-- **A transcoder that does not tell the payload**, given what related states have in common. After
    the end only the tool-use stop counts. -/
structure Oblivious (R : σ → σ → Prop) (wrap : σ → Transcoder)
    (render : ε → Except RelayError Bytes) (onChunk : σ → Json → Step σ ε)
    (onEnd : σ → Step σ ε) : Prop where
  onChunk : ∀ {s s' j j'}, R s s' → Json.Akin j j' → j.isText = true → j'.isText = true →
    (onChunk s j).Parallel R render (onChunk s' j')
  onEnd : ∀ {s s'}, R s s' →
    (onEnd s).Parallel (fun a b => (wrap a).toolUseStop = (wrap b).toolUseStop) render (onEnd s')

/-- A transcoder whose steps keep its state text writes all its events. -/
theorem oblivious_of_keepsText {good : σ → Prop} {isText : ε → Bool}
    (hk : Step.KeepsText good isText onChunk onEnd)
    (hrender : ∀ e, isText e = true → ∃ text, render e = .ok text)
    (hchunk : ∀ {s s' j j'}, R s s' → Json.Akin j j' → (onChunk s j).Akin R (onChunk s' j'))
    (hend : ∀ {s s'}, R s s' →
      (onEnd s).Akin (fun a b => (wrap a).toolUseStop = (wrap b).toolUseStop) (onEnd s')) :
    Oblivious (fun s s' => R s s' ∧ good s ∧ good s') wrap render onChunk onEnd where
  onChunk {s s' j j'} h hj htext htext' := by
    obtain ⟨hs, hgood, hgood'⟩ := h
    have ha := hk.onChunk s j hgood htext
    have hb := hk.onChunk s' j' hgood' htext'
    have hsame := hchunk hs hj
    exact ⟨⟨⟨hsame.state, ha.state, hb.state⟩, hsame.log_eq⟩,
      iff_of_true (ha.written hrender) (hb.written hrender)⟩
  onEnd {s s'} h :=
    ⟨hend h.1, iff_of_true ((hk.onEnd s h.2.1).written hrender)
      ((hk.onEnd s' h.2.2).written hrender)⟩

end Transcoder

/-! ## 1. Chat completion streams -/

namespace PendingCall

variable {calls : Table Int PendingCall}

/-- What a piece of a tool call adds is no payload. -/
theorem addPiece_eq {piece piece' : Json} (h : Json.Akin piece piece') :
    addPiece calls piece = addPiece calls piece' := by
  have hfunction := h.fieldD "function" rfl
  unfold addPiece add
  dsimp only
  rw [h.isObject_eq, h.intField?_eq, h.stringField_eq _ rfl, hfunction.stringField_eq _ rfl,
    hfunction.stringField_eq _ rfl]

theorem addPieces_eq {pieces pieces' : List Json}
    (h : pieces.map (Json.redact false) = pieces'.map (Json.redact false)) :
    addPieces calls pieces = addPieces calls pieces' := by
  induction pieces generalizing pieces' calls with
  | nil => rw [List.map_eq_nil_iff.mp h.symm]
  | cons piece pieces ih =>
    cases pieces' with
    | nil => cases h
    | cons piece' pieces' =>
      obtain ⟨hpiece, hrest⟩ := List.cons.inj h
      show addPieces (addPiece calls piece) pieces = addPieces (addPiece calls piece') pieces'
      rw [addPiece_eq hpiece, ih hrest]

end PendingCall

namespace OpenAIToClaude

variable {s : State} {j j' : Json}

theorem akin_addText {piece piece' : Bytes} (h : piece.isEmpty = piece'.isEmpty) :
    (addText piece s).Akin Eq (addText piece' s) := by
  unfold addText
  rw [h]
  split
  · exact ⟨rfl, rfl⟩
  · exact ⟨rfl, rfl⟩

theorem akin_addDelta (h : Json.Akin j j') : (addDelta j s).Akin Eq (addDelta j' s) := by
  refine (akin_addText (h.isEmpty_stringField_eq "content")).andThen ?_
  rintro s _ rfl
  obtain ⟨hnone, hnone'⟩ | ⟨pieces, pieces', hsome, hsome', hpieces⟩ :=
    h.arrayField?_cases "tool_calls"
  · rw [hnone, hnone']
    exact .rfl _
  · have hcalls : addCalls pieces s = addCalls pieces' s := by
      simp only [addCalls, PendingCall.addPieces_eq hpieces]
    rw [hsome, hsome']
    dsimp only
    rw [hcalls]
    exact .rfl _

theorem akin_onChunk (h : Json.Akin j j') : (onChunk s j).Akin Eq (onChunk s j') := by
  unfold onChunk
  obtain ⟨hnone, hnone'⟩ | ⟨choice, choice', hsome, hsome', hchoice⟩ :=
    h.headField?_cases "choices"
  · rw [hnone, hnone']
    exact ⟨rfl, rfl⟩
  · rw [hsome, hsome']
    dsimp only
    rw [hchoice.stringField_eq _ rfl]
    refine Step.Akin.andThen (R := Eq) ?_ fun s _ hs => hs ▸ .rfl _
    obtain ⟨hnone, hnone'⟩ | ⟨delta, delta', hsome, hsome', hdelta⟩ :=
      hchoice.objectField?_cases "delta"
    · rw [hnone, hnone']
      exact .rfl _
    · rw [hsome, hsome']
      exact akin_addDelta hdelta

end OpenAIToClaude

namespace OpenAIToGemini

variable {s : State} {j j' : Json}

theorem akin_addDelta (h : Json.Akin j j') : (addDelta j s).Akin Eq (addDelta j' s) := by
  have htext : (addText (j.stringField "content") s).Akin Eq
      (addText (j'.stringField "content") s) := ⟨rfl, rfl⟩
  refine htext.andThen ?_
  rintro s _ rfl
  obtain ⟨hnone, hnone'⟩ | ⟨pieces, pieces', hsome, hsome', hpieces⟩ :=
    h.arrayField?_cases "tool_calls"
  · rw [hnone, hnone']
    exact .rfl _
  · have hcalls : addCalls pieces s = addCalls pieces' s := by
      simp only [addCalls, PendingCall.addPieces_eq hpieces]
    rw [hsome, hsome']
    dsimp only
    rw [hcalls]
    exact .rfl _

/-- The usage of a chunk is in its events only. -/
theorem akin_finish (reason : Bytes) (usage usage' : Option Usage) :
    (finish reason usage s).Akin Eq (finish reason usage' s) := by
  unfold finish
  split
  · exact .rfl _
  · exact ⟨rfl, rfl⟩

theorem akin_onChunk (h : Json.Akin j j') : (onChunk s j).Akin Eq (onChunk s j') := by
  unfold onChunk
  obtain ⟨hnone, hnone'⟩ | ⟨choice, choice', hsome, hsome', hchoice⟩ :=
    h.headField?_cases "choices"
  · rw [hnone, hnone']
    exact ⟨rfl, rfl⟩
  · rw [hsome, hsome']
    dsimp only
    rw [hchoice.stringField_eq _ rfl]
    refine Step.Akin.andThen (R := Eq) ?_ fun s _ hs => hs ▸ akin_finish _ _ _
    obtain ⟨hnone, hnone'⟩ | ⟨delta, delta', hsome, hsome', hdelta⟩ :=
      hchoice.objectField?_cases "delta"
    · rw [hnone, hnone']
      exact .rfl _
    · rw [hsome, hsome']
      exact akin_addDelta hdelta

end OpenAIToGemini

/-! ## 2. Gemini streams -/

namespace GeminiToClaude

/-- The end and the number of calls so far are the same. -/
def SameCalls (s s' : State) : Prop :=
  SameEnd s s' ∧ s'.callCount = s.callCount

variable {s s' : State} {j j' : Json}

theorem SameCalls.symm (h : SameCalls s s') : SameCalls s' s :=
  ⟨⟨h.1.1.symm, h.1.2.symm⟩, h.2.symm⟩

theorem SameCalls.trans {s'' : State} (h : SameCalls s s') (h' : SameCalls s' s'') :
    SameCalls s s'' :=
  ⟨h.1.trans h'.1, h'.2.trans h.2⟩

/-- A step that reports no end, delivers no call and writes nothing to the log. -/
structure Keeps (s : State) (step : Step State ClaudeEvent) : Prop where
  same : SameCalls s step.state
  log_eq : step.log = []

theorem Keeps.akin {a b : Step State ClaudeEvent} (h : SameCalls s s') (ha : Keeps s a)
    (hb : Keeps s' b) : a.Akin SameCalls b where
  state := ha.same.symm.trans (h.trans hb.same)
  log_eq := ha.log_eq.trans hb.log_eq.symm

theorem keeps_closeBlock (s : State) : Keeps s (closeBlock s) := by
  unfold closeBlock
  split
  · exact ⟨⟨⟨rfl, rfl⟩, rfl⟩, rfl⟩
  · exact ⟨⟨⟨rfl, rfl⟩, rfl⟩, rfl⟩

theorem keeps_addPieces (kind : OpenKind) (pieces : List BlockDelta) (s : State) :
    Keeps s (addPieces kind pieces s) := by
  unfold addPieces openBlock
  split
  · exact ⟨⟨⟨rfl, rfl⟩, rfl⟩, rfl⟩
  · obtain ⟨hsame, hlog⟩ := keeps_closeBlock s
    refine ⟨hsame, ?_⟩
    show ((closeBlock s).log ++ []) ++ [] = []
    rw [hlog]
    rfl

theorem keeps_addText (part : Json) (text : Bytes) (s : State) : Keeps s (addText part text s) := by
  unfold addText
  split
  · exact keeps_addPieces _ _ s
  · split
    · exact ⟨⟨⟨rfl, rfl⟩, rfl⟩, rfl⟩
    · exact keeps_addPieces _ _ s

theorem akin_addCall (h : SameCalls s s') (call call' : Json) :
    (addCall call s).Akin SameCalls (addCall call' s') := by
  refine Step.Akin.andThen (Keeps.akin h (keeps_closeBlock s) (keeps_closeBlock s')) ?_
  intro s s' h
  exact ⟨⟨h.1, congrArg (· + 1) h.2⟩, rfl⟩

theorem akin_addPart (h : SameCalls s s') (hj : Json.Akin j j') :
    (addPart j s).Akin SameCalls (addPart j' s') := by
  unfold addPart
  obtain ⟨hnone, hnone'⟩ | ⟨text, text', hsome, hsome', -⟩ := hj.string?_cases "text"
  · rw [hnone, hnone']
    dsimp only
    obtain ⟨hnone, hnone'⟩ | ⟨call, call', hsome, hsome', -⟩ :=
      hj.objectField?_cases "functionCall"
    · rw [hnone, hnone']
      exact ⟨h, rfl⟩
    · rw [hsome, hsome']
      exact akin_addCall h call call'
  · rw [hsome, hsome']
    exact Keeps.akin h (keeps_addText j text s) (keeps_addText j' text' s')

theorem akin_addParts {parts parts' : List Json}
    (hparts : parts.map (Json.redact false) = parts'.map (Json.redact false))
    (h : SameCalls s s') : (addParts parts s).Akin SameCalls (addParts parts' s') := by
  induction parts generalizing parts' s s' with
  | nil =>
    rw [List.map_eq_nil_iff.mp hparts.symm]
    exact ⟨h, rfl⟩
  | cons part parts ih =>
    cases parts' with
    | nil => cases hparts
    | cons part' parts' =>
      obtain ⟨hpart, hrest⟩ := List.cons.inj hparts
      exact (akin_addPart h hpart).andThen fun s s' h => ih hrest h

theorem akin_finish (h : SameCalls s s') (reason : Bytes) :
    (finish reason s).Akin SameCalls (finish reason s') := by
  unfold finish
  rw [h.1.1]
  split
  · exact ⟨h, rfl⟩
  · refine Step.Akin.andThen (Keeps.akin h (keeps_closeBlock s) (keeps_closeBlock s')) ?_
    intro s s' h
    refine ⟨⟨⟨rfl, ?_⟩, h.2⟩, rfl⟩
    show decide (0 < s'.callCount) = decide (0 < s.callCount)
    rw [h.2]

/-- The parts of a candidate are as many, and the same but for payload. -/
theorem redact_parts (h : Json.Akin j j') :
    (match j.objectField? "content" with
        | some content => (content.arrayField? "parts").getD []
        | none => []).map (Json.redact false) =
      (match j'.objectField? "content" with
        | some content => (content.arrayField? "parts").getD []
        | none => []).map (Json.redact false) := by
  obtain ⟨hnone, hnone'⟩ | ⟨content, content', hsome, hsome', hcontent⟩ :=
    h.objectField?_cases "content"
  · rw [hnone, hnone']
  · rw [hsome, hsome']
    dsimp only
    obtain ⟨hnone, hnone'⟩ | ⟨parts, parts', hsome, hsome', hparts⟩ :=
      hcontent.arrayField?_cases "parts"
    · rw [hnone, hnone']
    · rw [hsome, hsome']
      exact hparts

theorem akin_onChunk (h : SameCalls s s') (hj : Json.Akin j j') :
    (onChunk s j).Akin SameCalls (onChunk s' j') := by
  unfold onChunk
  dsimp only
  obtain ⟨hnone, hnone'⟩ | ⟨candidate, candidate', hsome, hsome', hcandidate⟩ :=
    hj.headField?_cases "candidates"
  · rw [hnone, hnone']
    exact ⟨h, rfl⟩
  · rw [hsome, hsome']
    dsimp only
    rw [hcandidate.stringField_eq _ rfl]
    have hs : SameCalls { s with usage := (j.objectField? "usageMetadata").or s.usage }
        { s' with usage := (j'.objectField? "usageMetadata").or s'.usage } := h
    exact (akin_addParts (redact_parts hcandidate) hs).andThen fun s s' h => akin_finish h _

/-- At the end there is nothing for the log. -/
theorem akin_onEnd (h : SameCalls s s') :
    (onEnd s).Akin (fun a b => a.toolUseStop = b.toolUseStop) (onEnd s') := by
  refine Step.Akin.andThen (Keeps.akin h (keeps_closeBlock s) (keeps_closeBlock s')) ?_
  intro s s' h
  repeat' split
  all_goals exact ⟨h.1.2.symm, rfl⟩

end GeminiToClaude

/-! ## 3. Claude streams for Gemini clients -/

namespace ClaudeToGemini

/-- The open blocks and the tool-use stop are the same. -/
def SameBlocks (s s' : State) : Prop :=
  s'.blocks = s.blocks ∧ s'.toolUseStop = s.toolUseStop

variable {s s' : State} {j j' : Json}

theorem akin_startBlock (h : SameBlocks s s') (index : Int) (hj : Json.Akin j j') :
    (startBlock index j s).Akin SameBlocks (startBlock index j' s') := by
  unfold startBlock
  rw [hj.stringField_eq "type" rfl, hj.stringField_eq "id" rfl,
    hj.stringField_eq "name" rfl, h.1]
  split
  · exact ⟨⟨rfl, h.2⟩, rfl⟩
  · exact ⟨h, rfl⟩

theorem akin_addDelta (h : SameBlocks s s') (index : Int) (hj : Json.Akin j j') :
    (addDelta index j s).Akin SameBlocks (addDelta index j' s') := by
  unfold addDelta
  dsimp only
  rw [hj.stringField_eq "type" rfl, hj.stringField_eq "partial_json" rfl, h.1]
  split
  · exact ⟨h, rfl⟩
  split
  · exact ⟨h, rfl⟩
  split
  · split
    · exact ⟨⟨rfl, h.2⟩, rfl⟩
    · exact ⟨h, rfl⟩
  · exact ⟨h, rfl⟩

/-- What the log says of an input that is no JSON is the same. -/
theorem akin_stopBlock (h : SameBlocks s s') (index : Int) :
    (stopBlock index s).Akin SameBlocks (stopBlock index s') := by
  unfold stopBlock
  rw [h.1]
  split
  · exact ⟨h, rfl⟩
  · exact ⟨⟨rfl, h.2⟩, rfl⟩

theorem akin_finish (h : SameBlocks s s') (hj : Json.Akin j j') :
    (finish j s).Akin SameBlocks (finish j' s') := by
  have hdelta := hj.fieldD "delta" rfl
  refine ⟨⟨h.1, ?_⟩, rfl⟩
  show (s'.toolUseStop || _) = (s.toolUseStop || _)
  rw [h.2, hdelta.stringField_eq _ rfl]

theorem akin_onChunk (h : SameBlocks s s') (hj : Json.Akin j j') :
    (onChunk s j).Akin SameBlocks (onChunk s' j') := by
  unfold onChunk
  dsimp only
  rw [hj.stringField_eq "type" rfl, hj.intField?_eq]
  split
  · exact ⟨h, rfl⟩
  split
  · exact akin_startBlock h _ (hj.fieldD _ rfl)
  split
  · exact akin_addDelta h _ (hj.fieldD _ rfl)
  split
  · exact akin_stopBlock h _
  split
  · exact akin_finish h hj
  · exact ⟨h, rfl⟩

end ClaudeToGemini

/-! ## 4. Streams for clients of the Responses dialect -/

namespace ReplyEvent

/-- A completed reply of text is written when its model is text. -/
theorem written_completed_iff {id model text : Bytes} {usage : Usage} (hid : Utf8.valid id = true)
    (htext : Utf8.valid text = true) :
    (∃ event, (completed id model text usage).render = .ok event) ↔ Utf8.valid model = true := by
  constructor
  · intro h
    obtain ⟨event, hevent⟩ := h
    exact valid_of_render_completed hevent
  · intro hmodel
    exact exists_render
      (Bool.and_eq_true_iff.mpr ⟨Bool.and_eq_true_iff.mpr ⟨hid, hmodel⟩, htext⟩)

end ReplyEvent

namespace ToReplies

namespace Writer

/-- Writers of the same reply that have come equally far, both with texts. -/
structure Akin (w w' : Writer) : Prop where
  id_eq : w'.id = w.id
  model_eq : w'.model = w.model
  created_eq : w'.created = w.created
  finished_eq : w'.finished = w.finished
  valid_id : Utf8.valid w.id = true
  valid_text : Utf8.valid w.text = true
  valid_text' : Utf8.valid w'.text = true

variable {w w' : Writer} {piece piece' : Bytes}

theorem Akin.withUsage (h : Akin w w') (usage usage' : Json) :
    Akin { w with usage := usage } { w' with usage := usage' } :=
  ⟨h.id_eq, h.model_eq, h.created_eq, h.finished_eq, h.valid_id, h.valid_text, h.valid_text'⟩

theorem Akin.ensureCreated (h : Akin w w') :
    (ensureCreated w).Parallel Akin ReplyEvent.render (ensureCreated w') := by
  unfold Writer.ensureCreated
  rw [h.created_eq, h.id_eq, h.model_eq]
  split
  · exact ⟨⟨h, rfl⟩, Iff.rfl⟩
  · exact ⟨⟨⟨rfl, rfl, rfl, h.finished_eq, h.valid_id, h.valid_text, h.valid_text'⟩, rfl⟩,
      Iff.rfl⟩

theorem Akin.addText (h : Akin w w') (hempty : piece.isEmpty = piece'.isEmpty)
    (hpiece : Utf8.valid piece = true) (hpiece' : Utf8.valid piece' = true) :
    (addText piece w).Parallel Akin ReplyEvent.render (addText piece' w') := by
  unfold Writer.addText
  rw [hempty]
  split
  · exact ⟨⟨h, rfl⟩, Iff.rfl⟩
  · refine h.ensureCreated.andThen fun w w' h => ⟨⟨?_, rfl⟩, ?_⟩
    · exact ⟨h.id_eq, h.model_eq, h.created_eq, h.finished_eq, h.valid_id,
        Utf8.valid_append h.valid_text hpiece, Utf8.valid_append h.valid_text' hpiece'⟩
    · have hwritten {piece : Bytes} (h : Utf8.valid piece = true) :
          ∀ e ∈ [ReplyEvent.textDelta piece], ∃ text, e.render = .ok text :=
        List.forall_mem_singleton.mpr (ReplyEvent.exists_render h)
      exact iff_of_true (hwritten hpiece) (hwritten hpiece')

/-- The whole text is written; the completed reply is when its model can be. -/
theorem Akin.finish (h : Akin w w') :
    (finish w).Parallel (fun _ _ => True) ReplyEvent.render (finish w') := by
  unfold Writer.finish
  rw [h.finished_eq]
  split
  · exact ⟨⟨trivial, rfl⟩, Iff.rfl⟩
  · refine h.ensureCreated.andThen fun w w' h => ⟨⟨trivial, rfl⟩, ?_⟩
    have hwritten {w : Writer} (hid : Utf8.valid w.id = true) (htext : Utf8.valid w.text = true) :
        (∀ e ∈ [ReplyEvent.textDone w.text,
            .completed w.id w.model w.text (Usage.ofReport w.usage)],
          ∃ text, e.render = .ok text) ↔ Utf8.valid w.model = true := by
      rw [List.forall_mem_cons, List.forall_mem_singleton,
        ReplyEvent.written_completed_iff hid htext]
      exact and_iff_right (ReplyEvent.exists_render htext)
    have hid' : Utf8.valid w'.id = true := by
      rw [h.id_eq]
      exact h.valid_id
    refine (hwritten h.valid_id h.valid_text).trans
      (Iff.trans ?_ (hwritten hid' h.valid_text').symm)
    rw [h.model_eq]

end Writer

theorem OfOpenai.oblivious :
    Transcoder.Oblivious Writer.Akin .openaiToReplies ReplyEvent.render onChunk onEnd where
  onChunk {w w' j j'} h hj htext htext' := by
    unfold onChunk
    dsimp only
    have hw := h.withUsage ((j.objectField? "usage").getD w.usage)
      ((j'.objectField? "usage").getD w'.usage)
    obtain ⟨hnone, hnone'⟩ | ⟨choice, choice', hsome, hsome', hchoice⟩ :=
      hj.headField?_cases "choices"
    · rw [hnone, hnone']
      exact ⟨⟨hw, rfl⟩, Iff.rfl⟩
    rw [hsome, hsome', Option.bind_some, Option.bind_some]
    obtain ⟨hnone, hnone'⟩ | ⟨delta, delta', hdelta, hdelta', hakin⟩ :=
      hchoice.objectField?_cases "delta"
    · rw [hnone, hnone']
      exact ⟨⟨hw, rfl⟩, Iff.rfl⟩
    · rw [hdelta, hdelta']
      refine hw.addText (hakin.isEmpty_stringField_eq "content") ?_ ?_
      · exact Json.valid_stringField
          (Json.isText_objectField? (Json.isText_headField? htext hsome) hdelta)
      · exact Json.valid_stringField
          (Json.isText_objectField? (Json.isText_headField? htext' hsome') hdelta')
  onEnd h :=
    ⟨⟨rfl, h.finish.log_eq⟩, h.finish.written_iff⟩

theorem OfClaude.oblivious :
    Transcoder.Oblivious (fun s s' => Writer.Akin s.writer s'.writer) .claudeToReplies
      ReplyEvent.render onChunk onEnd where
  onChunk {s s' j j'} h hj htext htext' := by
    have hdelta := hj.fieldD "delta" rfl
    unfold onChunk
    dsimp only
    rw [hj.stringField_eq "type" rfl, hdelta.stringField_eq "type" rfl]
    split
    · exact ⟨⟨h, rfl⟩, Iff.rfl⟩
    split
    · split
      · refine (h.addText (hdelta.isEmpty_stringField_eq "text") ?_ ?_).mapState fun _ _ h => h
        · exact Json.valid_stringField (Json.isText_fieldD htext rfl)
        · exact Json.valid_stringField (Json.isText_fieldD htext' rfl)
      · exact ⟨⟨h, rfl⟩, Iff.rfl⟩
    split
    · exact ⟨⟨h, rfl⟩, Iff.rfl⟩
    · exact ⟨⟨h, rfl⟩, Iff.rfl⟩
  onEnd {s s'} h := by
    -- the usage is in the events only
    obtain ⟨usage, hs⟩ := exists_onEnd s
    obtain ⟨usage', hs'⟩ := exists_onEnd s'
    have hfinish := (h.withUsage usage usage').finish
    rw [hs, hs']
    exact ⟨⟨rfl, hfinish.log_eq⟩, hfinish.written_iff⟩

end ToReplies

/-! ## 5. Streams that are passed through -/

namespace Passthrough

theorem toolUseStop_flush (s : State) : (flush s).state.toolUseStop = s.toolUseStop := by
  unfold flush
  split <;> rfl

theorem log_flush (s : State) : (flush s).log = [] := by
  unfold flush
  split <;> rfl

/-- Of a line only the mark of a tool-use stop is kept for the end. -/
theorem toolUseStop_onLine (s : State) (line : Bytes) :
    (onLine s line).state.toolUseStop = (s.toolUseStop || marksToolUseStop line) := by
  unfold onLine
  split
  · rename_i hempty
    rw [List.isEmpty_iff.mp hempty, toolUseStop_flush]
    exact (Bool.or_false _).symm
  · rfl

theorem log_onLine (s : State) (line : Bytes) : (onLine s line).log = [] := by
  unfold onLine
  split
  · exact log_flush s
  · rfl

end Passthrough

/-! ## 6. Pairs of transcoders -/

namespace Transcoder

/-- **The invariant on a pair of transcoders** of the same kind: they differ in payload only, and
    hold text. -/
inductive Akin : Transcoder → Transcoder → Prop where
  | passthrough {s s' : Passthrough.State} (h : s'.toolUseStop = s.toolUseStop) :
      Akin (passthrough s) (passthrough s')
  | openaiToClaude {s : OpenAIToClaude.State} (hs : s.IsText) :
      Akin (openaiToClaude s) (openaiToClaude s)
  | geminiToClaude {s s' : GeminiToClaude.State} (h : GeminiToClaude.SameCalls s s') :
      Akin (geminiToClaude s) (geminiToClaude s')
  | openaiToGemini {s : OpenAIToGemini.State} (hs : s.IsText) :
      Akin (openaiToGemini s) (openaiToGemini s)
  | claudeToGemini {s s' : ClaudeToGemini.State} (h : ClaudeToGemini.SameBlocks s s')
      (hs : s.IsText) (hs' : s'.IsText) : Akin (claudeToGemini s) (claudeToGemini s')
  | openaiToReplies {w w' : ToReplies.Writer} (h : w.Akin w') :
      Akin (openaiToReplies w) (openaiToReplies w')
  | claudeToReplies {s s' : ToReplies.OfClaude.State} (h : s.writer.Akin s'.writer) :
      Akin (claudeToReplies s) (claudeToReplies s')

/-- A transcoder as it is made is paired with itself, whatever the model. -/
theorem Fresh.akin {model : Bytes} {t : Transcoder} (h : Fresh model t) : Akin t t := by
  have hid (n : Nat) : Utf8.valid (Identifier.reply n) = true :=
    Utf8.valid_append rfl (Bytes.printable_hex 32 n).ascii.valid
  cases h with
  | passthrough => exact .passthrough rfl
  | openaiToClaude => exact .openaiToClaude OpenAIToClaude.isText_fresh
  | geminiToClaude => exact .geminiToClaude ⟨⟨rfl, rfl⟩, rfl⟩
  | openaiToGemini => exact .openaiToGemini OpenAIToGemini.isText_fresh
  | claudeToGemini =>
    exact .claudeToGemini ⟨rfl, rfl⟩ ClaudeToGemini.isText_fresh ClaudeToGemini.isText_fresh
  | openaiToReplies n => exact .openaiToReplies ⟨rfl, rfl, rfl, rfl, hid n, rfl, rfl⟩
  | claudeToReplies n => exact .claudeToReplies ⟨rfl, rfl, rfl, rfl, hid n, rfl, rfl⟩

/-- **What two steps come to**: both pass, or both fail with the same error, or each with the text
    of a report. -/
inductive SameOutcome (R : Transcoder → Transcoder → Prop) :
    Except RelayError (Step Transcoder Bytes) → Except RelayError (Step Transcoder Bytes) →
      Prop where
  | passes {a b : Step Transcoder Bytes} (h : a.Akin R b) : SameOutcome R (.ok a) (.ok b)
  | fails (e : RelayError) : SameOutcome R (.error e) (.error e)
  | reports (text text' : Bytes) :
      SameOutcome R (.error (.reported text)) (.error (.reported text'))

section

variable {σ ε : Type} {R : σ → σ → Prop} {R' : Transcoder → Transcoder → Prop}
  {render : ε → Except RelayError Bytes} {wrap : σ → Transcoder} {component : Bytes}
  {onChunk : σ → Json → Step σ ε} {onEnd : σ → Step σ ε} {s s' : σ}

/-- Steps of which one is written when the other is come to the same. -/
theorem sameOutcome_write (hrender : FailsOnText render) {a b : Step σ ε}
    (h : a.Parallel R render b) (hwrap : ∀ s s', R s s' → R' (wrap s) (wrap s')) :
    SameOutcome R' (write render wrap a) (write render wrap b) := by
  have hfails {step : Step σ ε} (hstep : ¬ step.Written render) :
      write render wrap step = .error .wrongJsonType := by
    cases hwrite : write render wrap step with
    | error e => rw [eq_wrongJsonType_of_write hrender hwrite]
    | ok written =>
      obtain ⟨texts, htexts, -⟩ := write_eq_ok_iff.mp hwrite
      refine absurd (fun e he => ?_) hstep
      obtain ⟨text, -, htext⟩ := exists_mem_of_mem_mapM htexts he
      exact ⟨text, htext⟩
  by_cases ha : a.Written render
  · obtain ⟨texts, htexts⟩ := mapM_eq_ok_of_forall ha
    obtain ⟨texts', htexts'⟩ := mapM_eq_ok_of_forall (h.written_iff.mp ha)
    rw [write_eq_ok_iff.mpr ⟨texts, htexts, rfl⟩, write_eq_ok_iff.mpr ⟨texts', htexts', rfl⟩]
    exact .passes ⟨hwrap _ _ h.state, h.log_eq⟩
  · rw [hfails ha, hfails fun hb => ha (h.written_iff.mpr hb)]
    exact .fails _

/-- **A step on a line**: skipped lines are noted by their size, and a reported error fails. -/
theorem Typed.sameOutcome_onLine (ht : Typed wrap component onChunk onEnd render)
    (hrender : FailsOnText render) (ho : Oblivious R wrap render onChunk onEnd)
    (hwrap : ∀ s s', R s s' → R' (wrap s) (wrap s')) (hs : R s s') {line line' : Bytes}
    (hline : Bytes.Alike line line') :
    SameOutcome R' ((wrap s).onLine line) ((wrap s').onLine line') := by
  rw [ht.onLine_eq, ht.onLine_eq, Step.onLine, Step.onLine]
  generalize hc : Chunk.ofLine line = chunk
  generalize hc' : Chunk.ofLine line' = chunk'
  have hchunk := Chunk.akin_ofLine hline
  rw [hc, hc'] at hchunk
  have hskip (log : List LogEntry) : Step.Parallel R render { state := s, log }
      { state := s', log } := ⟨⟨hs, rfl⟩, Iff.rfl⟩
  cases hchunk with
  | none => exact sameOutcome_write hrender (hskip []) hwrap
  | unreadable size => exact sameOutcome_write hrender (hskip _) hwrap
  | data hj hj' h => exact sameOutcome_write hrender (ho.onChunk hs h hj hj') hwrap
  | error hj hj' =>
    dsimp only
    rw [Json.dump_of_isText hj, Json.dump_of_isText hj']
    exact .reports _ _

theorem Typed.sameOutcome_onEnd (ht : Typed wrap component onChunk onEnd render)
    (hrender : FailsOnText render) (ho : Oblivious R wrap render onChunk onEnd) (hs : R s s') :
    SameOutcome (fun a b => a.toolUseStop = b.toolUseStop) (wrap s).onEnd (wrap s').onEnd := by
  rw [ht.onEnd_eq, ht.onEnd_eq]
  exact sameOutcome_write hrender (ho.onEnd hs) fun _ _ h => h

end

theorem oblivious_openaiToClaude :
    Oblivious (fun s s' => s = s' ∧ s.IsText ∧ s'.IsText) openaiToClaude ClaudeEvent.render
      OpenAIToClaude.onChunk OpenAIToClaude.onEnd :=
  oblivious_of_keepsText OpenAIToClaude.keepsText (fun _ => ClaudeEvent.exists_render)
    (fun hs hj => hs ▸ OpenAIToClaude.akin_onChunk hj) (fun hs => hs ▸ ⟨rfl, rfl⟩)

theorem oblivious_geminiToClaude :
    Oblivious (fun s s' => GeminiToClaude.SameCalls s s' ∧ True ∧ True) geminiToClaude
      ClaudeEvent.render GeminiToClaude.onChunk GeminiToClaude.onEnd :=
  oblivious_of_keepsText GeminiToClaude.keepsText (fun _ => ClaudeEvent.exists_render)
    GeminiToClaude.akin_onChunk GeminiToClaude.akin_onEnd

theorem oblivious_openaiToGemini :
    Oblivious (fun s s' => s = s' ∧ s.IsText ∧ s'.IsText) openaiToGemini GeminiChunk.render
      OpenAIToGemini.onChunk OpenAIToGemini.onEnd :=
  oblivious_of_keepsText OpenAIToGemini.keepsText (fun _ => GeminiChunk.exists_render)
    (fun hs hj => hs ▸ OpenAIToGemini.akin_onChunk hj) (fun hs => hs ▸ ⟨rfl, rfl⟩)

theorem oblivious_claudeToGemini :
    Oblivious (fun s s' => ClaudeToGemini.SameBlocks s s' ∧ s.IsText ∧ s'.IsText) claudeToGemini
      GeminiChunk.render ClaudeToGemini.onChunk ClaudeToGemini.onEnd :=
  oblivious_of_keepsText ClaudeToGemini.keepsText (fun _ => GeminiChunk.exists_render)
    ClaudeToGemini.akin_onChunk (fun hs => ⟨hs.2.symm, rfl⟩)

variable {t t' : Transcoder}

/-- **Alike lines come to the same**, and leave a pair of transcoders. -/
theorem Akin.onLine (h : Akin t t') {line line' : Bytes} (hline : Bytes.Alike line line') :
    SameOutcome Akin (t.onLine line) (t'.onLine line') := by
  cases h with
  | @passthrough s s' h =>
    refine .passes ⟨.passthrough ?_, ?_⟩
    · rw [Passthrough.toolUseStop_onLine, Passthrough.toolUseStop_onLine, h,
        hline.marksToolUseStop_eq]
    · exact (Passthrough.log_onLine s line).trans (Passthrough.log_onLine s' line').symm
  | openaiToClaude hs =>
    exact typed_openaiToClaude.sameOutcome_onLine ClaudeEvent.failsOnText oblivious_openaiToClaude
      (fun | _, _, ⟨rfl, hs, _⟩ => .openaiToClaude hs) ⟨rfl, hs, hs⟩ hline
  | geminiToClaude h =>
    exact typed_geminiToClaude.sameOutcome_onLine ClaudeEvent.failsOnText oblivious_geminiToClaude
      (fun _ _ h => .geminiToClaude h.1) ⟨h, trivial, trivial⟩ hline
  | openaiToGemini hs =>
    exact typed_openaiToGemini.sameOutcome_onLine GeminiChunk.failsOnText oblivious_openaiToGemini
      (fun | _, _, ⟨rfl, hs, _⟩ => .openaiToGemini hs) ⟨rfl, hs, hs⟩ hline
  | claudeToGemini h hs hs' =>
    exact typed_claudeToGemini.sameOutcome_onLine GeminiChunk.failsOnText oblivious_claudeToGemini
      (fun _ _ h => .claudeToGemini h.1 h.2.1 h.2.2) ⟨h, hs, hs'⟩ hline
  | openaiToReplies h =>
    exact typed_openaiToReplies.sameOutcome_onLine ReplyEvent.failsOnText
      ToReplies.OfOpenai.oblivious (fun _ _ h => .openaiToReplies h) h hline
  | claudeToReplies h =>
    exact typed_claudeToReplies.sameOutcome_onLine ReplyEvent.failsOnText
      ToReplies.OfClaude.oblivious (fun _ _ h => .claudeToReplies h) h hline

/-- The ends come to the same, and tell of tools or not in both. -/
theorem Akin.onEnd (h : Akin t t') :
    SameOutcome (fun a b => a.toolUseStop = b.toolUseStop) t.onEnd t'.onEnd := by
  cases h with
  | @passthrough s s' h =>
    refine .passes ⟨?_, (Passthrough.log_flush s).trans (Passthrough.log_flush s').symm⟩
    exact (Passthrough.toolUseStop_flush s).trans
      (h.symm.trans (Passthrough.toolUseStop_flush s').symm)
  | openaiToClaude hs =>
    exact typed_openaiToClaude.sameOutcome_onEnd ClaudeEvent.failsOnText oblivious_openaiToClaude
      ⟨rfl, hs, hs⟩
  | geminiToClaude h =>
    exact typed_geminiToClaude.sameOutcome_onEnd ClaudeEvent.failsOnText oblivious_geminiToClaude
      ⟨h, trivial, trivial⟩
  | openaiToGemini hs =>
    exact typed_openaiToGemini.sameOutcome_onEnd GeminiChunk.failsOnText oblivious_openaiToGemini
      ⟨rfl, hs, hs⟩
  | claudeToGemini h hs hs' =>
    exact typed_claudeToGemini.sameOutcome_onEnd GeminiChunk.failsOnText oblivious_claudeToGemini
      ⟨h, hs, hs'⟩
  | openaiToReplies h =>
    exact typed_openaiToReplies.sameOutcome_onEnd ReplyEvent.failsOnText
      ToReplies.OfOpenai.oblivious h
  | claudeToReplies h =>
    exact typed_claudeToReplies.sameOutcome_onEnd ReplyEvent.failsOnText
      ToReplies.OfClaude.oblivious h

end Transcoder

end ChatRelay
