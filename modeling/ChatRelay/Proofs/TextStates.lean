import ChatRelay.Proofs.GeminiBlocks
import ChatRelay.Proofs.OpenAICalls
import ChatRelay.Proofs.OpenAIParts
import ChatRelay.Transcoder.ClaudeToGemini
import ChatRelay.Transcoder.ToReplies

/-!
# States that bring text

A transcoder holds back strings of its chunks -- ids and names of calls, the text so far -- and
writes them later. They were read, so they are UTF-8, and for each transcoder there is an INVARIANT
of its state that says so and that every step keeps (`Step.KeepsText`). Whatever the fields of a
chunk hold, the events that it brings can be written.

* `OpenAIToClaude.keepsText`, `OpenAIToGemini.keepsText` -- the calls between chunks
  (`PendingCall.Rest`);
* `GeminiToClaude.keepsText` -- nothing is held back;
* `ClaudeToGemini.keepsText` -- the open tool blocks;
* `ToReplies.OfOpenai.keepsText`, `ToReplies.OfClaude.keepsText` -- the reply (`Writer.IsText`).
-/

namespace ChatRelay

/-! ## 1. Steps that bring text -/

namespace Step

variable {σ τ ε : Type}

/-- A step to a good state, with events of text. -/
structure Writes (good : σ → Prop) (isText : ε → Bool) (step : Step σ ε) : Prop where
  state : good step.state
  events : ∀ e ∈ step.events, isText e = true

variable {good : σ → Prop} {good' : τ → Prop} {isText : ε → Bool} {s : σ}

/-- A step that brings nothing. -/
theorem writes_nil (h : good s) {log : List LogEntry} :
    Writes good isText { state := s, log } :=
  ⟨h, List.forall_mem_nil _⟩

/-- A step that brings one event. -/
theorem writes_one (h : good s) {e : ε} (he : isText e = true) {log : List LogEntry} :
    Writes good isText { state := s, events := [e], log } :=
  ⟨h, List.forall_mem_singleton.mpr he⟩

theorem Writes.andThen {first : Step σ ε} (h : first.Writes good isText) {next : σ → Step τ ε}
    (hnext : ∀ s, good s → (next s).Writes good' isText) :
    (first.andThen next).Writes good' isText where
  state := (hnext _ h.state).state
  events := List.forall_mem_append.mpr ⟨h.events, (hnext _ h.state).events⟩

theorem Writes.mapState {step : Step σ ε} (h : step.Writes good isText) {f : σ → τ}
    (hf : ∀ s, good s → good' (f s)) : (step.mapState f).Writes good' isText :=
  ⟨hf _ h.state, h.events⟩

/-- **The invariant of a transcoder's state**: every chunk of text and the end bring events of text
    and keep the state good. -/
structure KeepsText (good : σ → Prop) (isText : ε → Bool) (onChunk : σ → Json → Step σ ε)
    (onEnd : σ → Step σ ε) : Prop where
  onChunk : ∀ s chunk, good s → chunk.isText = true → (onChunk s chunk).Writes good isText
  onEnd : ∀ s, good s → (onEnd s).Writes good isText

/-- **The invariant on all chunks.** -/
theorem KeepsText.overChunks {onChunk : σ → Json → Step σ ε} {onEnd : σ → Step σ ε}
    (h : KeepsText good isText onChunk onEnd) (hs : good s) {chunks : List Json}
    (hchunks : ∀ chunk ∈ chunks, chunk.isText = true) :
    (overChunks onChunk s chunks).Writes good isText := by
  induction chunks generalizing s with
  | nil => exact writes_nil hs
  | cons chunk chunks ih =>
    obtain ⟨hchunk, hrest⟩ := List.forall_mem_cons.mp hchunks
    exact (h.onChunk s chunk hs hchunk).andThen fun s hs => ih hs hrest

end Step

open Step

/-! ## 2. Chat completion streams -/

namespace PendingCall

/-- The calls between chunks: none is complete, and their ids and names are UTF-8. -/
structure Rest (calls : Table Int PendingCall) : Prop where
  settled : Settled calls
  text : AreText calls

theorem Rest.gather {calls : Table Int PendingCall} (h : Rest calls) {chunk : Json}
    (hchunk : chunk.isText = true) :
    Rest (incomplete (addPieces calls (OpenAI.piecesOf chunk))) where
  settled := settled_incomplete _
  text := (h.text.addPieces (OpenAI.isText_of_mem_piecesOf hchunk)).incomplete

end PendingCall

/-- The calls held back are text. -/
def OpenAIToClaude.State.IsText (s : State) : Prop :=
  PendingCall.Rest s.calls

theorem OpenAIToClaude.isText_fresh : State.IsText {} :=
  ⟨List.forall_mem_nil _, List.forall_mem_nil _⟩

theorem OpenAIToClaude.keepsText :
    KeepsText State.IsText ClaudeEvent.isText onChunk onEnd where
  onChunk s chunk hs hchunk := by
    refine ⟨?_, isText_onChunk hs.text hchunk⟩
    show PendingCall.Rest (onChunk s chunk).state.calls
    rw [(gathers_onChunk hs.settled chunk).state]
    exact hs.gather hchunk
  onEnd s hs := by
    refine ⟨?_, fun _ he => isText_of_mem_onEnd he⟩
    show PendingCall.Rest (closeText false s).state.calls
    rw [calls_closeText]
    exact hs

/-- The calls held back are text. -/
def OpenAIToGemini.State.IsText (s : State) : Prop :=
  PendingCall.Rest s.calls

theorem OpenAIToGemini.isText_fresh : State.IsText {} :=
  ⟨List.forall_mem_nil _, List.forall_mem_nil _⟩

theorem OpenAIToGemini.keepsText :
    KeepsText State.IsText GeminiChunk.isText onChunk onEnd where
  onChunk s chunk hs hchunk := by
    refine ⟨?_, isText_onChunk hs.text hchunk⟩
    show PendingCall.Rest (onChunk s chunk).state.calls
    rw [calls_onChunk hs.settled chunk]
    exact hs.gather hchunk
  onEnd _ hs := writes_nil hs

/-! ## 3. Gemini streams -/

namespace Gemini

theorem valid_toolUseId (position : Nat) : Utf8.valid (toolUseId position) = true :=
  Utf8.valid_append rfl (Bytes.printable_ofNat position).ascii.valid

theorem valid_of_signature? {part : Json} {signature : Bytes} (h : part.isText = true)
    (hs : signature? part = some signature) : Utf8.valid signature = true := by
  unfold signature? at hs
  dsimp only at hs
  split at hs
  · cases hs
  · cases hs
    exact Json.valid_stringField h

end Gemini

namespace GeminiToClaude

/-- A step that brings text; nothing is asked of the state. -/
abbrev BringsText (step : Step State ClaudeEvent) : Prop :=
  step.Writes (fun _ => True) ClaudeEvent.isText

variable {part : Json}

theorem bringsText_closeBlock (s : State) : BringsText (closeBlock s) := by
  unfold closeBlock
  split
  · exact writes_nil trivial
  · exact writes_one trivial rfl

theorem bringsText_openBlock (kind : OpenKind) (s : State) : BringsText (openBlock kind s) := by
  unfold openBlock
  split
  · exact writes_nil trivial
  · refine (bringsText_closeBlock s).andThen fun s _ => writes_one trivial ?_
    cases kind <;> rfl

theorem bringsText_addPieces (kind : OpenKind) {pieces : List BlockDelta}
    (h : ∀ piece ∈ pieces, piece.isText = true) (s : State) :
    BringsText (addPieces kind pieces s) := by
  refine (bringsText_openBlock kind s).andThen fun s _ => ⟨trivial, ?_⟩
  exact List.forall_mem_map.mpr h

theorem bringsText_addText (hpart : part.isText = true) {text : Bytes}
    (htext : Utf8.valid text = true) (s : State) : BringsText (addText part text s) := by
  unfold addText
  split
  · have hthought : (BlockDelta.thinking text).isText = true := htext
    refine bringsText_addPieces .thinking (List.forall_mem_cons.mpr ⟨hthought, ?_⟩) s
    intro piece hpiece
    obtain ⟨signature, hsignature, rfl⟩ := Option.map_eq_some_iff.mp (Option.mem_toList.mp hpiece)
    exact Gemini.valid_of_signature? hpart hsignature
  · split
    · exact writes_nil trivial
    · have hpiece : (BlockDelta.text text).isText = true := htext
      exact bringsText_addPieces .text (List.forall_mem_singleton.mpr hpiece) s

theorem bringsText_addCall {call : Json} (hcall : call.isText = true) (s : State) :
    BringsText (addCall call s) := by
  refine (bringsText_closeBlock s).andThen fun s _ => ⟨trivial, ?_⟩
  have hargs : ((call.field? "args").getD (.obj [])).isText = true := Json.isText_fieldD hcall rfl
  have hinput : (ContentBlock.inputOrEmpty ((call.field? "args").getD (.obj []))).isText =
      true := by
    unfold ContentBlock.inputOrEmpty
    split
    · rfl
    · exact hargs
  simp only [List.forall_mem_cons]
  exact ⟨Bool.and_eq_true_iff.mpr ⟨Gemini.valid_toolUseId _, Json.valid_stringField hcall⟩,
    hinput, rfl, List.forall_mem_nil _⟩

theorem bringsText_addPart (hpart : part.isText = true) (s : State) :
    BringsText (addPart part s) := by
  unfold addPart
  split
  · rename_i text htext
    obtain ⟨field, hfield, hstring⟩ := Option.bind_eq_some_iff.mp htext
    refine bringsText_addText hpart ?_ s
    have hvalue := Json.isText_field? hpart hfield
    unfold Json.string? at hstring
    split at hstring
    · cases hstring
      exact hvalue
    · cases hstring
  · split
    · rename_i call hcall
      exact bringsText_addCall (Json.isText_objectField? hpart hcall) s
    · exact writes_nil trivial

theorem bringsText_addParts {parts : List Json} (h : ∀ part ∈ parts, part.isText = true)
    (s : State) : BringsText (addParts parts s) := by
  induction parts generalizing s with
  | nil => exact writes_nil trivial
  | cons part parts ih =>
    obtain ⟨hpart, hparts⟩ := List.forall_mem_cons.mp h
    exact (bringsText_addPart hpart s).andThen fun s _ => ih hparts s

theorem bringsText_finish (reason : Bytes) (s : State) : BringsText (finish reason s) := by
  unfold finish
  split
  · exact writes_nil trivial
  · refine (bringsText_closeBlock s).andThen fun s _ => writes_one trivial ?_
    -- the reason is one of the library's own words
    show Utf8.valid (if 0 < s.callCount then _ else _) = true
    unfold StopReason.geminiToClaude
    repeat' split
    all_goals rfl

theorem isText_of_mem_parts {candidate : Json} (h : candidate.isText = true) :
    ∀ part ∈ (match candidate.objectField? "content" with
      | some content => (content.arrayField? "parts").getD []
      | none => []), part.isText = true := by
  cases hcontent : candidate.objectField? "content" with
  | none => exact List.forall_mem_nil _
  | some content =>
    show ∀ part ∈ (content.arrayField? "parts").getD [], _
    cases hparts : content.arrayField? "parts" with
    | none => exact List.forall_mem_nil _
    | some parts =>
      exact Json.isText_of_mem_arrayField? (Json.isText_objectField? h hcontent) hparts

theorem keepsText : KeepsText (fun _ => True) ClaudeEvent.isText onChunk onEnd where
  onChunk s chunk _ hchunk := by
    unfold onChunk
    dsimp only
    split
    · exact writes_nil trivial
    · rename_i candidate hcandidate
      refine (bringsText_addParts ?_ _).andThen fun s _ => bringsText_finish _ s
      exact isText_of_mem_parts (Json.isText_headField? hchunk hcandidate)
  onEnd _ _ := ⟨trivial, fun _ he => isText_of_mem_onEnd he⟩

end GeminiToClaude

/-! ## 4. Claude streams for Gemini clients -/

namespace Table

variable {κ ν : Type} [DecidableEq κ] {t : Table κ ν} {k : κ} {e : κ × ν}

/-- What is left after an entry was taken out was there before. -/
theorem mem_of_mem_erase (h : e ∈ erase t k) : e ∈ t := by
  induction t with
  | nil => exact h
  | cons head t ih =>
    rw [erase] at h
    split at h
    · exact List.mem_cons_of_mem head h
    · rcases List.mem_cons.mp h with rfl | h
      · exact List.mem_cons_self
      · exact List.mem_cons_of_mem head (ih h)

end Table

namespace ClaudeToGemini

open PendingCall

/-- The open blocks are text. -/
def State.IsText (s : State) : Prop :=
  AreText s.blocks

theorem isText_fresh : State.IsText {} :=
  List.forall_mem_nil _

variable {s : State} {part : Json}

/-- A step that brings text, and keeps the open blocks text. -/
abbrev KeepsBlocks (step : Step State GeminiChunk) : Prop :=
  step.Writes State.IsText GeminiChunk.isText

theorem keepsBlocks_startBlock (hs : s.IsText) (index : Int) {block : Json}
    (h : block.isText = true) : KeepsBlocks (startBlock index block s) := by
  unfold startBlock
  split
  · refine writes_nil fun e he => ?_
    rcases Table.mem_insert he with rfl | he
    · exact ⟨Json.valid_stringField h, Json.valid_stringField h⟩
    · exact hs e he
  · exact writes_nil hs

theorem keepsBlocks_pieceChunk (hs : s.IsText) (piece : Bytes) (h : part.isText = true) :
    KeepsBlocks { state := s, events := pieceChunk piece part } := by
  unfold pieceChunk
  split
  · exact writes_nil hs
  · have hchunk : (GeminiChunk.part part).isText = true := h
    exact writes_one hs hchunk

theorem keepsBlocks_addDelta (hs : s.IsText) (index : Int) {delta : Json}
    (h : delta.isText = true) : KeepsBlocks (addDelta index delta s) := by
  unfold addDelta
  dsimp only
  split
  · exact keepsBlocks_pieceChunk hs _ (Gemini.isText_textPart (Json.valid_stringField h))
  split
  · have hunsigned : ∀ signature ∈ (none : Option Bytes), Utf8.valid signature = true :=
      fun _ hmem => absurd hmem (Option.not_mem_none _)
    exact keepsBlocks_pieceChunk hs _
      (Gemini.isText_thoughtPart (Json.valid_stringField h) hunsigned)
  split
  · -- the id and the name of a block stay while its input is gathered
    split
    · rename_i call hcall
      have hnames := hs _ (Table.mem_of_find? hcall)
      refine writes_nil fun e he => ?_
      rcases Table.mem_insert he with rfl | he
      · exact hnames
      · exact hs e he
    · exact writes_nil hs
  · exact writes_nil hs

theorem isText_gatheredInput {call : PendingCall} {input : Json}
    (h : gatheredInput? call = some input) : input.isText = true := by
  unfold gatheredInput? at h
  split at h
  · cases h
    rfl
  · exact Json.isText_of_parse? h

theorem keepsBlocks_stopBlock (hs : s.IsText) (index : Int) :
    KeepsBlocks (stopBlock index s) := by
  unfold stopBlock
  split
  · exact writes_nil hs
  · rename_i call hcall
    refine writes_one (fun e he => hs e (Table.mem_of_mem_erase he)) ?_
    refine Gemini.isText_callPart (hs _ (Table.mem_of_find? hcall)).2 ?_
    cases hinput : gatheredInput? call with
    | none => rfl
    | some input => exact isText_gatheredInput hinput

theorem keepsBlocks_finish (hs : s.IsText) (event : Json) :
    KeepsBlocks (finish event s) := by
  refine ⟨hs, List.forall_mem_singleton.mpr ?_⟩
  show Utf8.valid (StopReason.claudeToGemini _) = true
  unfold StopReason.claudeToGemini
  split <;> rfl

theorem keepsText :
    KeepsText State.IsText GeminiChunk.isText onChunk onEnd where
  onChunk s event hs hevent := by
    have hfield (key : Bytes) : ((event.field? key).getD .null).isText = true :=
      Json.isText_fieldD hevent rfl
    unfold onChunk
    dsimp only
    split
    · exact ⟨hs, List.forall_mem_nil _⟩
    split
    · exact keepsBlocks_startBlock hs _ (hfield _)
    split
    · exact keepsBlocks_addDelta hs _ (hfield _)
    split
    · exact keepsBlocks_stopBlock hs _
    split
    · exact keepsBlocks_finish hs event
    · exact writes_nil hs
  onEnd _ _ := writes_nil (List.forall_mem_nil _)

end ClaudeToGemini

/-! ## 5. Streams for clients of the Responses dialect -/

namespace ToReplies

/-- The strings of the reply are UTF-8. -/
structure Writer.IsText (w : Writer) : Prop where
  id : Utf8.valid w.id = true
  model : Utf8.valid w.model = true
  text : Utf8.valid w.text = true

namespace Writer

variable {w : Writer}

theorem IsText.ensureCreated (h : w.IsText) :
    (ensureCreated w).Writes IsText ReplyEvent.isText := by
  unfold Writer.ensureCreated
  split
  · exact writes_nil h
  · have hcreated : (ReplyEvent.created w.id w.model).isText = true :=
      Bool.and_eq_true_iff.mpr ⟨h.id, h.model⟩
    exact ⟨⟨h.id, h.model, h.text⟩, List.forall_mem_singleton.mpr hcreated⟩

theorem IsText.addText (h : w.IsText) {piece : Bytes} (hpiece : Utf8.valid piece = true) :
    (addText piece w).Writes IsText ReplyEvent.isText := by
  unfold Writer.addText
  split
  · exact writes_nil h
  · have hdelta : (ReplyEvent.textDelta piece).isText = true := hpiece
    exact h.ensureCreated.andThen fun w hw =>
      ⟨⟨hw.id, hw.model, Utf8.valid_append hw.text hpiece⟩, List.forall_mem_singleton.mpr hdelta⟩

theorem IsText.finish (h : w.IsText) : (finish w).Writes IsText ReplyEvent.isText := by
  unfold Writer.finish
  split
  · exact writes_nil h
  · refine h.ensureCreated.andThen fun w hw => ⟨⟨hw.id, hw.model, hw.text⟩, ?_⟩
    have hcompleted : (ReplyEvent.completed w.id w.model w.text (Usage.ofReport w.usage)).isText =
        true :=
      Bool.and_eq_true_iff.mpr ⟨Bool.and_eq_true_iff.mpr ⟨hw.id, hw.model⟩, hw.text⟩
    exact List.forall_mem_cons.mpr ⟨hw.text, List.forall_mem_singleton.mpr hcompleted⟩

end Writer

theorem OfOpenai.keepsText :
    KeepsText Writer.IsText ReplyEvent.isText onChunk onEnd where
  onChunk w chunk hw hchunk := by
    unfold onChunk
    dsimp only
    have hw' : Writer.IsText { w with usage := (chunk.objectField? "usage").getD w.usage } :=
      ⟨hw.id, hw.model, hw.text⟩
    split
    · rename_i delta hdelta
      exact hw'.addText (Json.valid_stringField (OpenAI.isText_of_deltaOf? hchunk hdelta))
    · exact writes_nil hw'
  onEnd _ hw := hw.finish

/-- The strings of the reply are UTF-8. -/
def OfClaude.State.IsText (s : State) : Prop :=
  s.writer.IsText

theorem OfClaude.keepsText :
    KeepsText State.IsText ReplyEvent.isText onChunk onEnd where
  onChunk s event hs hevent := by
    unfold onChunk
    dsimp only
    split
    · exact ⟨hs, List.forall_mem_nil _⟩
    split
    · split
      · refine (hs.addText ?_).mapState fun w hw => hw
        exact Json.valid_stringField (Json.isText_fieldD hevent rfl)
      · exact ⟨hs, List.forall_mem_nil _⟩
    split
    · exact ⟨hs, List.forall_mem_nil _⟩
    · exact ⟨hs, List.forall_mem_nil _⟩
  onEnd s hs := by
    unfold onEnd
    cases s.usage with
    | some fields =>
      have hw : Writer.IsText { s.writer with usage := .obj fields } := ⟨hs.id, hs.model, hs.text⟩
      exact ⟨hw.finish.state, hw.finish.events⟩
    | none => exact ⟨hs.finish.state, hs.finish.events⟩

end ToReplies

end ChatRelay
