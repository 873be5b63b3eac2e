import ChatRelay.Proofs.GeminiAnswers
import ChatRelay.Proofs.JsonRoundTrip
import ChatRelay.Proofs.TextStates

/-!
# Gemini answers in chunks

A Gemini response may come as a whole or in chunks. However its parts are cut, a Claude client puts
together from the stream what the converter of the whole response makes of it: the same content,
neighbouring texts and neighbouring thoughts merged, the same stop reason and the same usage.

* `Holds` -- what the client has in progress is what the transcoder has open;
* `Takes` -- what a step on parts keeps; steps in a row keep it (`Takes.trans`);
* `takes_addText`, `takes_addCall` -- the two kinds of parts; the input of a call is sent as text
  and read back by the client (`Json.parse?_render`);
* `streamed_response_agrees` -- the stream against the whole.
-/

namespace ChatRelay

namespace GeminiToClaude

open ClaudeEvent
open ContentBlock (merged)
open Gemini (partsOf reasonOf bareBlock Streams bringsCall)

/-! ## 1. The block in progress -/

/-- The client has in progress what the transcoder has open. -/
def Holds (d : Option Draft) (s : State) : Prop :=
  d.map (·.toOpenBlock) = s.opened

/-- A block of some kind with these words. -/
def OpenKind.block : OpenKind → Bytes → ContentBlock
  | text, words => .text words
  | thinking, words => .thinking (.str words) none

variable {s s' s'' : State} {d d' d'' : Option Draft} {part : Json}

/-- What is in progress: nothing, or a block of the kind that is open. -/
theorem Holds.cases (h : Holds d s) :
    (s.openKind = none ∧ d = none) ∨
      ∃ kind words, s.openKind = some kind ∧ d = some ⟨⟨s.index, kind.opening⟩, words⟩ := by
  unfold Holds State.opened at h
  cases hkind : s.openKind with
  | none =>
    rw [hkind] at h
    exact .inl ⟨rfl, Option.map_eq_none_iff.mp h⟩
  | some kind =>
    rw [hkind] at h
    obtain ⟨⟨b, words⟩, rfl, hb⟩ := Option.map_eq_some_iff.mp h
    exact .inr ⟨kind, words, rfl, congrArg (fun b => some (Draft.mk b words)) hb⟩

theorem block?_of_kind (index : Nat) (kind : OpenKind) (words : Bytes) :
    Draft.block? ⟨⟨index, kind.opening⟩, words⟩ = some (kind.block words) := by
  cases kind <;> rfl

/-- Closing finishes what is in progress. -/
theorem assemble_closeBlock (h : Holds d s) (rest : List ClaudeEvent) :
    assemble d ((closeBlock s).events ++ rest) =
      (assemble none rest).map (inProgress d ++ ·) := by
  unfold closeBlock
  rcases h.cases with ⟨hkind, rfl⟩ | ⟨kind, words, hkind, rfl⟩
  · rw [hkind]
    exact (congrFun Option.map_id _).symm
  · have hblock := block?_of_kind s.index kind words
    rw [hkind, inProgress, Option.bind_some, hblock]
    exact assemble_stop hblock rest

/-- What has been closed is not joined by a block of another kind. -/
theorem merged_after_close (h : Holds d s) {block : ContentBlock}
    (hapart : ∀ kind words, s.openKind = some kind → (kind.block words).join? block = none)
    (more : List ContentBlock) :
    merged (inProgress d ++ block :: more) = inProgress d ++ merged (block :: more) := by
  rcases h.cases with ⟨-, rfl⟩ | ⟨kind, words, hkind, rfl⟩
  · rfl
  · rw [inProgress, Option.bind_some, block?_of_kind]
    exact ContentBlock.merged_apart (hapart kind words hkind) more

/-- A tool call is not joined by anything. -/
theorem merged_call (id name : Bytes) (input : Json) (more : List ContentBlock) :
    merged (.toolUse id name input :: more) = .toolUse id name input :: merged more := by
  cases more with
  | nil => rfl
  | cons block more => exact ContentBlock.merged_apart rfl more

/-! ## 2. Parts -/

section Pieces

variable {kind : OpenKind} {pieces : List BlockDelta} {words : List Bytes}
  (hfits : ∀ piece ∈ pieces, piece.fits kind.opening = true)
  (hwords : pieces.mapM BlockDelta.words? = some words)

/-- Pieces of the kind that is open go to the open block. -/
theorem addPieces_of_same (h : s.openKind = some kind) (pieces : List BlockDelta) :
    (addPieces kind pieces s).events = pieces.map (blockDelta s.index) ∧
      (addPieces kind pieces s).state = s := by
  rw [addPieces, openBlock, if_pos h]
  exact ⟨rfl, rfl⟩

/-- Pieces of another kind begin a block of their own. -/
theorem addPieces_of_other (h : s.openKind ≠ some kind) (pieces : List BlockDelta) :
    (addPieces kind pieces s).events = (closeBlock s).events ++
        blockStart (closeBlock s).state.index kind.opening ::
          pieces.map (blockDelta (closeBlock s).state.index) ∧
      (addPieces kind pieces s).state = { (closeBlock s).state with openKind := some kind } := by
  rw [addPieces, openBlock, if_neg h, Step.events_andThen, Step.events_andThen, List.append_assoc]
  exact ⟨rfl, rfl⟩

include hfits hwords

/-- The block in progress grows, and what has come before joins what comes now. -/
theorem builds_same (index : Nat) (before : Bytes) :
    Builds (some ⟨⟨index, kind.opening⟩, before⟩) (pieces.map (blockDelta index))
      [kind.block words.flatten] (some ⟨⟨index, kind.opening⟩, before ++ words.flatten⟩) := by
  refine ⟨[], fun rest => ?_, fun more => ?_⟩
  · rw [assemble_pieces (d := ⟨⟨index, kind.opening⟩, before⟩) hfits hwords]
    exact (congrFun Option.map_id _).symm
  · simp only [inProgress, Option.bind_some, block?_of_kind, Option.toList_some]
    refine ContentBlock.merged_joined ?_ more
    cases kind <;> rfl

/-- The block in progress is finished, and another one is begun. -/
theorem builds_other (h : Holds d s) (hother : s.openKind ≠ some kind) (index : Nat) :
    Builds d ((closeBlock s).events ++
        blockStart index kind.opening :: pieces.map (blockDelta index))
      [kind.block words.flatten] (some ⟨⟨index, kind.opening⟩, words.flatten⟩) := by
  refine ⟨inProgress d, fun rest => ?_, fun more => ?_⟩
  · rw [List.append_assoc, assemble_closeBlock h, List.cons_append, assemble_start,
      assemble_pieces (d := ⟨⟨index, kind.opening⟩, []⟩) hfits hwords]
    rfl
  · simp only [inProgress, Option.bind_some, block?_of_kind, Option.toList_some,
      List.cons_append, List.nil_append]
    refine merged_after_close h (fun before words hkind => ?_) more
    have hne : before ≠ kind := fun heq => hother (heq ▸ hkind)
    cases before <;> cases kind <;> first | rfl | exact absurd rfl hne

/-- Pieces of a text or a thought grow the block in progress, or begin one. -/
theorem builds_addPieces (h : Holds d s) :
    ∃ d', Builds d (addPieces kind pieces s).events [kind.block words.flatten] d' ∧
      Holds d' (addPieces kind pieces s).state := by
  by_cases hsame : s.openKind = some kind
  · obtain ⟨hevents, hstate⟩ := addPieces_of_same hsame pieces
    rw [hevents, hstate]
    rcases h.cases with ⟨hkind, -⟩ | ⟨kind', before, hkind, rfl⟩
    · rw [hkind] at hsame
      cases hsame
    · obtain rfl : kind' = kind := Option.some.inj (hkind.symm.trans hsame)
      refine ⟨_, builds_same hfits hwords s.index before, ?_⟩
      rw [Holds, State.opened, hsame]
      rfl
  · obtain ⟨hevents, hstate⟩ := addPieces_of_other hsame pieces
    rw [hevents, hstate]
    exact ⟨_, builds_other hfits hwords h hsame (closeBlock s).state.index, rfl⟩

end Pieces

/-- **Parts are taken in**: the client builds their blocks, the calls are counted, and no message
    delta is brought. -/
structure Takes (d : Option Draft) (s : State) (parts : List Json) (events : List ClaudeEvent)
    (d' : Option Draft) (s' : State) : Prop where
  builds : Builds d events (parts.map bareBlock) d'
  holds : Holds d' s'
  counted : s'.callCount = s.callCount + parts.countP bringsCall
  finished : s'.finished = s.finished
  quiet : events.filter isMessageDelta = []

theorem takes_nil (h : Holds d s) : Takes d s [] [] d s :=
  ⟨builds_nil d, h, rfl, rfl, rfl⟩

theorem Takes.trans {xs ys : List ClaudeEvent} {parts more : List Json}
    (hx : Takes d s parts xs d' s') (hy : Takes d' s' more ys d'' s'') :
    Takes d s (parts ++ more) (xs ++ ys) d'' s'' where
  builds := by
    rw [List.map_append]
    exact hx.builds.trans hy.builds
  holds := hy.holds
  counted := by rw [hy.counted, hx.counted, List.countP_append, Nat.add_assoc]
  finished := hy.finished.trans hx.finished
  quiet := by rw [List.filter_append, hx.quiet, hy.quiet, List.append_nil]

/-- Where `finished` stays as it is, no message delta is brought. -/
theorem quiet_of_delivers {events : List ClaudeEvent} (h : Delivers s events s')
    (hfinished : s'.finished = s.finished) : events.filter isMessageDelta = [] := by
  have hmessages := h.messages
  rw [hfinished] at hmessages
  have hnone : events.countP isMessageDelta = 0 := by omega
  rwa [List.countP_eq_length_filter, List.length_eq_zero_iff] at hnone

theorem openBlock_state (kind : OpenKind) (s : State) :
    (openBlock kind s).state.callCount = s.callCount ∧
      (openBlock kind s).state.finished = s.finished := by
  unfold openBlock
  split
  · exact ⟨rfl, rfl⟩
  · exact (closeBlock_state s).2

/-- Pieces take in a part that has no call, when they make up its block. -/
theorem takes_addPieces (h : Holds d s) (hcall : part.objectField? "functionCall" = none)
    {kind : OpenKind} {pieces : List BlockDelta} (words : List Bytes)
    (hfits : ∀ piece ∈ pieces, piece.fits kind.opening = true)
    (hwords : pieces.mapM BlockDelta.words? = some words)
    (hblock : kind.block words.flatten = bareBlock part) :
    ∃ d', Takes d s [part] (addPieces kind pieces s).events d' (addPieces kind pieces s).state := by
  have hcount : List.countP bringsCall [part] = 0 := by
    simp [bringsCall, hcall]
  obtain ⟨hcalls, hfinished⟩ := openBlock_state kind s
  obtain ⟨d', hbuilds, hholds⟩ := builds_addPieces hfits hwords h
  rw [hblock] at hbuilds
  refine ⟨d', hbuilds, hholds, ?_, hfinished,
    quiet_of_delivers (delivers_addPieces hfits s) hfinished⟩
  rw [hcount]
  exact hcalls

/-- A text or a thought is taken in. -/
theorem takes_addText (h : Holds d s) {text : Bytes} (htext : part.field? "text" = some (.str text))
    (hne : text ≠ []) (hcall : part.objectField? "functionCall" = none) :
    ∃ d', Takes d s [part] (addText part text s).events d' (addText part text s).state := by
  have hempty : text.isEmpty = false := by simpa using hne
  unfold addText
  by_cases hthought : part.boolField "thought" = true
  · rw [if_pos hthought]
    have hblock : bareBlock part = OpenKind.thinking.block text := by
      rw [bareBlock, htext]
      exact if_pos hthought
    cases hsignature : Gemini.signature? part with
    | none =>
      refine takes_addPieces h hcall [text] (List.forall_mem_singleton.mpr rfl) rfl ?_
      rw [hblock, List.flatten_singleton]
    | some signature =>
      -- the signature goes with the thought and adds no words
      refine takes_addPieces h hcall [text, []] ?_ rfl ?_
      · simp only [Option.map_some, Option.toList_some, List.forall_mem_cons]
        exact ⟨rfl, rfl, List.forall_mem_nil _⟩
      · rw [hblock, List.flatten_cons, List.flatten_singleton, List.append_nil]
  · rw [if_neg hthought, hempty]
    refine takes_addPieces h hcall [text] (List.forall_mem_singleton.mpr rfl) rfl ?_
    rw [bareBlock, htext, List.flatten_singleton]
    exact (if_neg hthought).symm

theorem readable_inputOrEmpty {call : Json} (h : call.Readable) :
    (ContentBlock.inputOrEmpty ((call.field? "args").getD (.obj []))).Readable := by
  have hempty : (Json.obj []).Readable :=
    .obj List.Pairwise.nil (List.forall_mem_nil _) (List.forall_mem_nil _)
  have hargs : ((call.field? "args").getD (.obj [])).Readable :=
    Json.hereditary_readable.fieldD h hempty
  unfold ContentBlock.inputOrEmpty
  split
  · exact hempty
  · exact hargs

/-- A function call is taken in, given that the text of its input can be read back. -/
theorem takes_addCall (h : Holds d s) {call : Json}
    (hcall : part.objectField? "functionCall" = some call)
    (htext : (part.field? "text").bind Json.string? = none) (hreadable : call.Readable) :
    ∃ d', Takes d s [part] (addCall call s).events d' (addCall call s).state := by
  obtain ⟨-, hcount, hfinished⟩ := closeBlock_state s
  have hinput := readable_inputOrEmpty hreadable
  have hblock : bareBlock part = .toolUse [] (call.stringField "name")
      (ContentBlock.inputOrEmpty ((call.field? "args").getD (.obj []))) := by
    rw [bareBlock, htext, hcall]
    rfl
  have hone : List.countP bringsCall [part] = 1 := by
    simp [bringsCall, hcall]
  have hbuilds : Builds d (addCall call s).events [bareBlock part] none := by
    refine ⟨inProgress d ++ [bareBlock part], fun rest => ?_, fun more => ?_⟩
    · rw [addCall, Step.events_andThen, List.append_assoc, assemble_closeBlock h]
      simp only [List.cons_append, List.nil_append]
      rw [assemble_call _ _ _ (Json.dump_of_isText hinput.isText) (Json.parse?_render hinput),
        Option.map_map, hblock]
      congr 1
      funext blocks
      exact List.append_cons ..
    · rw [List.singleton_append, hblock, merged_after_close h ?_ more, merged_call]
      · exact List.append_cons ..
      · intro kind words _
        cases kind <;> rfl
  have hholds : Holds none (addCall call s).state := by
    rw [Holds, State.opened]
    exact congrArg (Option.map _) (closeBlock_state s).1.symm
  exact ⟨none, hbuilds, hholds, by rw [hone, ← hcount]; rfl, hfinished,
    quiet_of_delivers (delivers_addCall call s) hfinished⟩

/-- A part is taken in. -/
theorem takes_addPart (h : Holds d s) (hpart : Streams part) (hreadable : part.Readable) :
    ∃ d', Takes d s [part] (addPart part s).events d' (addPart part s).state := by
  rcases hpart with ⟨text, htext, hne, hcall⟩ | ⟨call, hcall, htext⟩
  · have hadd : addPart part s = addText part text s := by
      rw [addPart, htext]
      rfl
    rw [hadd]
    exact takes_addText h htext hne hcall
  · have hadd : addPart part s = addCall call s := by
      rw [addPart, htext, hcall]
    rw [hadd]
    exact takes_addCall h hcall htext (Json.hereditary_readable.objectField? hreadable hcall)

theorem takes_addParts {parts : List Json} (h : Holds d s) (hparts : ∀ part ∈ parts, Streams part)
    (hreadable : ∀ part ∈ parts, part.Readable) :
    ∃ d', Takes d s parts (addParts parts s).events d' (addParts parts s).state := by
  induction parts generalizing d s with
  | nil => exact ⟨d, takes_nil h⟩
  | cons part parts ih =>
    obtain ⟨hpart, hparts⟩ := List.forall_mem_cons.mp hparts
    obtain ⟨hread, hreadable⟩ := List.forall_mem_cons.mp hreadable
    obtain ⟨d', hfirst⟩ := takes_addPart h hpart hread
    obtain ⟨d'', hrest⟩ := ih hfirst.holds hparts hreadable
    exact ⟨d'', hfirst.trans hrest⟩

/-! ## 3. Chunks -/

theorem usage_closeBlock (s : State) : (closeBlock s).state.usage = s.usage := by
  unfold closeBlock
  split <;> rfl

theorem usage_addPieces (kind : OpenKind) (pieces : List BlockDelta) (s : State) :
    (addPieces kind pieces s).state.usage = s.usage := by
  unfold addPieces openBlock
  split
  · rfl
  · exact usage_closeBlock s

/-- Parts do not change the usage that has come. -/
theorem usage_addPart (part : Json) (s : State) : (addPart part s).state.usage = s.usage := by
  unfold addPart
  split
  · unfold addText
    split
    · exact usage_addPieces _ _ s
    · split
      · rfl
      · exact usage_addPieces _ _ s
  · split
    · exact usage_closeBlock s
    · rfl

theorem usage_addParts (parts : List Json) (s : State) :
    (addParts parts s).state.usage = s.usage := by
  induction parts generalizing s with
  | nil => rfl
  | cons part parts ih => exact (ih _).trans (usage_addPart part s)

/-- The parts do not depend on the usage that has come. -/
theorem takes_of_usage {usage : Option Json} {parts : List Json} {events : List ClaudeEvent}
    (h : Takes d { s with usage } parts events d' s') : Takes d s parts events d' s' :=
  ⟨h.builds, h.holds, h.counted, h.finished, h.quiet⟩

/-- Chunks without finish reason are taken in part by part. -/
theorem takes_overChunks {chunks : List Json} (h : Holds d s)
    (hreasons : ∀ chunk ∈ chunks, reasonOf chunk = [])
    (hparts : ∀ part ∈ chunks.flatMap partsOf, Streams part)
    (hreadable : ∀ part ∈ chunks.flatMap partsOf, part.Readable) :
    ∃ d', Takes d s (chunks.flatMap partsOf) (Step.overChunks onChunk s chunks).events d'
      (Step.overChunks onChunk s chunks).state := by
  induction chunks generalizing d s with
  | nil => exact ⟨d, takes_nil h⟩
  | cons chunk chunks ih =>
    obtain ⟨hreason, hreasons⟩ := List.forall_mem_cons.mp hreasons
    rw [List.flatMap_cons] at hparts hreadable ⊢
    obtain ⟨hparts, hmore⟩ := List.forall_mem_append.mp hparts
    obtain ⟨hreadable, hmoreReadable⟩ := List.forall_mem_append.mp hreadable
    have hheld : Holds d { s with usage := (chunk.objectField? "usageMetadata").or s.usage } := h
    obtain ⟨d', hfirst⟩ := takes_addParts hheld hparts hreadable
    obtain ⟨d'', hrest⟩ := ih hfirst.holds hreasons hmore hmoreReadable
    have honChunk : (onChunk s chunk).Agrees (addParts (partsOf chunk)
        { s with usage := (chunk.objectField? "usageMetadata").or s.usage }) := by
      rw [onChunk_eq, hreason]
      exact ⟨rfl, List.append_nil _⟩
    rw [Step.overChunks, Step.events_andThen, Step.state_andThen, honChunk.1, honChunk.2]
    exact ⟨d'', (takes_of_usage hfirst).trans hrest⟩

/-- The first finish reason closes what is open and tells the stop reason and the usage. -/
theorem finish_eq {reason : Bytes} (hreason : reason ≠ []) (hs : s.finished = false) :
    (finish reason s).events = (closeBlock s).events ++
        [messageDelta (some (if 0 < s.callCount then "tool_use" else
          StopReason.geminiToClaude reason)) (some (reportedUsage s))] ∧
      (finish reason s).state.openKind = none ∧ (finish reason s).state.finished = true := by
  obtain ⟨hclosed, hcount, -⟩ := closeBlock_state s
  have hempty : reason.isEmpty = false := by simpa using hreason
  have husage : reportedUsage (closeBlock s).state = reportedUsage s := by
    rw [reportedUsage, usage_closeBlock]
    rfl
  rw [finish, hempty, hs]
  refine ⟨?_, hclosed, rfl⟩
  show (closeBlock s).events ++ _ = _
  dsimp only
  rw [hcount, husage]

/-- The calls that have been counted tell the stop reason of the whole answer. -/
theorem stopReason_of_counted {a : GeminiAnswer} {n : Nat} (h : n = a.parts.countP bringsCall) :
    (if 0 < n then Bytes.ofString "tool_use" else StopReason.geminiToClaude a.reason) =
      a.stopReason := by
  have hany : 0 < n ↔ a.parts.any bringsCall = true := by
    rw [h, List.countP_pos_iff, List.any_eq_true]
  rw [GeminiAnswer.stopReason]
  by_cases hcall : 0 < n
  · rw [if_pos hcall, if_pos (hany.mp hcall)]
  · rw [if_neg hcall, if_neg (mt hany.mpr hcall)]

/-- After the finish reason the end brings nothing. -/
theorem events_onEnd_of_finished (hopen : s.openKind = none) (hs : s.finished = true) :
    (onEnd s).events = [] := by
  have hclose : closeBlock s = { state := s } := by
    rw [closeBlock, hopen]
  rw [onEnd, hclose, Step.events_andThen]
  show [] ++ (if s.finished || s.usage.isNone then _ else _ : Step State ClaudeEvent).events = []
  rw [hs]
  rfl

/-- What the chunks of lines have as parts can be read. -/
theorem readable_of_mem_parts (lines : List Bytes) :
    ∀ part ∈ (Chunk.objects lines).flatMap partsOf, part.Readable := by
  intro part hpart
  obtain ⟨chunk, hchunk, hpart⟩ := List.mem_flatMap.mp hpart
  obtain ⟨payload, hparse⟩ := Chunk.exists_parse?_of_mem_objects hchunk
  exact Gemini.of_mem_partsOf Json.hereditary_readable (Json.readable_of_parse? hparse) part hpart

/-- Parts that have been taken in from the start, closed and followed by a message delta. -/
theorem Takes.assemble_closed {parts : List Json} {events : List ClaudeEvent}
    (h : Takes none {} parts events d s) (reason : Option Bytes) (usage : Option Usage) :
    assemble none (events ++ ((closeBlock s).events ++ [messageDelta reason usage])) =
        some (merged (parts.map bareBlock)) ∧
      (events ++ ((closeBlock s).events ++ [messageDelta reason usage])).filter isMessageDelta =
        [messageDelta reason usage] := by
  constructor
  · refine h.builds.assemble_eq ?_
    rw [assemble_closeBlock h.holds, assemble_message]
    exact congrArg some (List.append_nil _)
  · have hquiet : (closeBlock s).events.filter isMessageDelta = [] :=
      quiet_of_delivers (delivers_closeBlock s) (closeBlock_state s).2.2
    rw [List.filter_append, h.quiet, List.filter_append, hquiet]
    rfl

/-- The last chunk and the end of the stream: its parts, and the end of the message. -/
theorem events_of_last {a : GeminiAnswer} {last : Json} (hproper : a.Proper)
    (hreason : reasonOf last = a.reason) (husage : last.objectField? "usageMetadata" = some a.usage)
    (hs' : (addParts (partsOf last) { s with usage := some a.usage }).state = s')
    (hunfinished : s'.finished = false)
    (hcounted : s'.callCount = a.parts.countP bringsCall) :
    (onChunk s last).events ++ (onEnd (onChunk s last).state).events =
      (addParts (partsOf last) { s with usage := some a.usage }).events ++
        ((closeBlock s').events ++
          [messageDelta (some a.stopReason) (some (Usage.ofGemini a.usage))]) := by
  have hreported : reportedUsage s' = Usage.ofGemini a.usage := by
    rw [reportedUsage, ← hs', usage_addParts]
    rfl
  obtain ⟨hfinish, hclosed, hfinished⟩ := finish_eq hproper.reason hunfinished
  rw [stopReason_of_counted hcounted, hreported] at hfinish
  have hlast : onChunk s last =
      (addParts (partsOf last) { s with usage := some a.usage }).andThen (finish a.reason) := by
    rw [onChunk_eq, hreason, husage]
    rfl
  rw [hlast, Step.events_andThen, Step.state_andThen, hs', hfinish,
    events_onEnd_of_finished hclosed hfinished, List.append_nil]

/-- **What a Claude client puts together** from the chunks of an answer: its blocks, merged, and one
    message delta. -/
theorem assemble_wholeEvents {a : GeminiAnswer} {lines : List Bytes} (hproper : a.Proper)
    (hcut : a.CutInto (Chunk.objects lines)) :
    assemble none (Step.wholeEvents onChunk onEnd {} lines) =
        some (merged (a.parts.map bareBlock)) ∧
      (Step.wholeEvents onChunk onEnd {} lines).filter isMessageDelta =
        [messageDelta (some a.stopReason) (some (Usage.ofGemini a.usage))] := by
  obtain ⟨before, last, hchunks, hreasons, hreason, husage⟩ := hcut.last
  have hreadable := readable_of_mem_parts lines
  have hparts : ∀ part ∈ (Chunk.objects lines).flatMap partsOf, Streams part := by
    rw [hcut.parts]
    exact hproper.parts
  have hall : before.flatMap partsOf ++ partsOf last = a.parts := by
    rw [← hcut.parts, hchunks, List.flatMap_append, List.flatMap_singleton]
  rw [hchunks, List.flatMap_append, List.flatMap_singleton] at hreadable hparts
  obtain ⟨hbeforeReadable, hlastReadable⟩ := List.forall_mem_append.mp hreadable
  obtain ⟨hbeforeParts, hlastParts⟩ := List.forall_mem_append.mp hparts
  -- the chunks before the last one, then its parts
  obtain ⟨d, hbefore⟩ := takes_overChunks (s := {}) (d := none) rfl hreasons hbeforeParts
    hbeforeReadable
  generalize hs : (Step.overChunks onChunk {} before).state = s at hbefore
  have hheld : Holds d { s with usage := some a.usage } := hbefore.holds
  obtain ⟨d', hlast⟩ := takes_addParts hheld hlastParts hlastReadable
  generalize hs' : (addParts (partsOf last) { s with usage := some a.usage }).state = s' at hlast
  have htaken := hbefore.trans (takes_of_usage hlast)
  rw [hall] at htaken
  have hcounted : s'.callCount = a.parts.countP bringsCall :=
    htaken.counted.trans (Nat.zero_add _)
  rw [Step.wholeEvents_of_last hchunks, hs,
    events_of_last hproper hreason husage hs' htaken.finished hcounted, ← List.append_assoc]
  exact htaken.assemble_closed _ _

end GeminiToClaude

/-! ## 4. Agreement -/

open ClaudeEvent (assemble isMessageDelta)
open ContentBlock (merged)

/-- **The stream agrees with the whole response**: it succeeds; the blocks that a Claude client puts
    together are the content of the converted response, without ids and signatures and with
    neighbours merged; and its one message delta tells the same stop reason and the same usage. -/
def ResponseAgrees (reply : Json) (lines : List Bytes) : Prop :=
  ∃ fed, (Transcoder.geminiToClaude {}).feed lines = .ok fed ∧
    ∃ last, fed.state.onEnd = .ok last ∧
      ∃ events, events.mapM ClaudeEvent.render = .ok (fed.events ++ last.events) ∧
        ∃ reason usage,
          events.filter isMessageDelta = [.messageDelta (some reason) (some usage)] ∧
            ∀ id,
              assemble none events = some (merged
                ((claudeContent (Gemini.responseToClaude reply id)).map ContentBlock.bare)) ∧
              (Gemini.responseToClaude reply id).field? "stop_reason" = some (.str reason) ∧
              (Gemini.responseToClaude reply id).field? "usage" = some usage.toClaude

theorem streamed_response_agrees {a : GeminiAnswer} {reply : Json} {lines : List Bytes}
    (hreply : a.Of reply) (hproper : a.Proper) (hlines : ∀ line ∈ lines, ¬ Chunk.Reports line)
    (hcut : a.CutInto (Chunk.objects lines)) : ResponseAgrees reply lines := by
  have htext := (GeminiToClaude.keepsText.overChunks (s := {}) trivial
    (Chunk.isText_of_mem_objects lines)).events
  obtain ⟨fed, hfed, last, hlast, hwritten⟩ :=
    Transcoder.exists_written Transcoder.typed_geminiToClaude
      (fun _ _ he => ClaudeEvent.exists_render (GeminiToClaude.isText_of_mem_onEnd he)) hlines
      fun e he => ClaudeEvent.exists_render (htext e he)
  obtain ⟨hblocks, hmessage⟩ := GeminiToClaude.assemble_wholeEvents hproper hcut
  refine ⟨fed, hfed, last, hlast, _, hwritten, a.stopReason, Usage.ofGemini a.usage, hmessage,
    fun id => ⟨?_, ?_, ?_⟩⟩
  · rw [hblocks, GeminiAnswer.bare_claudeContent hreply hproper]
  · exact GeminiAnswer.field?_stop_reason hreply id
  · exact GeminiAnswer.field?_usage hreply hproper id

/-- Two chunks that cut a text in two, with a thought and a call of which the arguments have a
    fraction. -/
theorem streamed_response_agrees_text_thought_call :
    let chunk (parts : List Json) (candidate fields : List (Bytes × Json)) : Json := .object
      (("candidates", .arr [.object
        (("content", .object [("parts", .arr parts)]) :: candidate)]) :: fields)
    let text (words : Bytes) : Json := .object [("text", .str words)]
    let thought : Json := .object
      [("text", .str "t"), ("thought", .bool true), ("thoughtSignature", .str "s")]
    let call : Json := .object [("functionCall", .object
      [("name", .str "f"), ("args", .object [("x", .double ⟨0x3FF8000000000000⟩)])])]
    let reason : List (Bytes × Json) := [("finishReason", .str "STOP")]
    let usage : List (Bytes × Json) := [("usageMetadata", .object
      [("promptTokenCount", .int 9), ("candidatesTokenCount", .int 4),
        ("cachedContentTokenCount", .int 2)])]
    let lines := [chunk [text "a"] [] [], chunk [text "b", thought, call] reason usage].map
      fun chunk => Bytes.ofString "data: " ++ chunk.render
    ResponseAgrees (chunk [text "a", text "b", thought, call] reason usage) lines := by
  intro chunk text thought call reason usage lines
  let a : GeminiAnswer :=
    { parts := [text "a", text "b", thought, call]
      reason := "STOP"
      usage := .object [("promptTokenCount", .int 9), ("candidatesTokenCount", .int 4),
        ("cachedContentTokenCount", .int 2)] }
  have hreply : a.Of (chunk [text "a", text "b", thought, call] reason usage) :=
    ⟨by decide +kernel, by decide +kernel, by decide +kernel⟩
  have hproper : a.Proper := by
    refine ⟨?_, by decide, by decide +kernel, by decide +kernel, by decide +kernel⟩
    simp only [a, List.forall_mem_cons]
    refine ⟨.inl ⟨_, rfl, by decide, rfl⟩, .inl ⟨_, rfl, by decide, rfl⟩,
      .inl ⟨_, rfl, by decide, rfl⟩, .inr ⟨_, rfl, rfl⟩, List.forall_mem_nil _⟩
  have hobjects : Chunk.objects lines =
        [chunk [text "a"] [] [], chunk [text "b", thought, call] reason usage] ∧
      ∀ line ∈ lines, (Chunk.ofLine line).data?.isSome = true := by decide +kernel
  have hcut : a.CutInto (Chunk.objects lines) := by
    rw [hobjects.1]
    refine ⟨by decide +kernel, [_], _, rfl, ?_, by decide +kernel, by decide +kernel⟩
    exact List.forall_mem_singleton.mpr (by decide +kernel)
  exact streamed_response_agrees hreply hproper
    (fun line hline => Chunk.not_reports_of_data? (hobjects.2 line hline)) hcut

end ChatRelay
