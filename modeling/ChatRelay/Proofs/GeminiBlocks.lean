import ChatRelay.Proofs.Blocks
import ChatRelay.Proofs.Chunks
import ChatRelay.Proofs.Writing

/-!
# Blocks of a Gemini stream

The events that a Claude client is sent for a Gemini stream follow the grammar of blocks, whatever
the chunks are. Blocks of all kinds are numbered in one run, and the ids of tool calls in another.

* `Delivers` -- what a step keeps; steps in a row keep it (`Delivers.trans`);
* `delivers_onChunk`, `delivers_onEnd` -- every step keeps it;
* `wordsOf_onChunk` -- a step delivers the texts and the thoughts of its chunk;
* `Grammar` -- what follows for a stream from its first line to its end.
-/

namespace ChatRelay.GeminiToClaude

open ClaudeEvent
open Gemini (partsOf reasonOf)

/-- The block that is open. -/
def State.opened (s : State) : Option OpenBlock :=
  s.openKind.map fun kind => ⟨s.index, kind.opening⟩

/-- The number of blocks that have been started. -/
def State.started (s : State) : Nat :=
  s.index + s.openKind.isSome.toNat

/-- The texts of those parts that are thoughts, or of those that are not, joined. -/
def wordsIn (thoughts : Bool) (parts : List Json) : Bytes :=
  (parts.filter fun part => part.boolField "thought" = thoughts).flatMap (·.stringField "text")

/-! ## 1. What a step keeps -/

/-- **The events lead from one state to another**: they fit what is open, blocks and calls bear the
    next numbers, and a message delta comes once, outside blocks, and tells of the calls. -/
structure Delivers (s : State) (events : List ClaudeEvent) (s' : State) : Prop where
  bracketed : openAfter? s.opened events = some s'.opened
  numbered : List.range s.started ++ startIndices events = List.range s'.started
  called : (List.range s.callCount).map Gemini.toolUseId ++ callIds events =
    (List.range s'.callCount).map Gemini.toolUseId
  counted : s.callCount + events.countP startsCall = s'.callCount
  messages : events.countP isMessageDelta + s.finished.toNat = s'.finished.toNat
  messagesClosed : OnlyClosed isMessageDelta s.opened events
  reasons : ReasonsTell s.callCount events

variable {s s' s'' : State} {xs ys : List ClaudeEvent}

theorem Delivers.trans (hx : Delivers s xs s') (hy : Delivers s' ys s'') :
    Delivers s (xs ++ ys) s'' where
  bracketed := by rw [openAfter?_append, hx.bracketed, Option.bind_some, hy.bracketed]
  numbered := by rw [startIndices_append, ← List.append_assoc, hx.numbered, hy.numbered]
  called := by rw [callIds_append, ← List.append_assoc, hx.called, hy.called]
  counted := by rw [List.countP_append, ← Nat.add_assoc, hx.counted, hy.counted]
  messages := by
    have h1 := hx.messages
    have h2 := hy.messages
    rw [List.countP_append]
    omega
  messagesClosed := hx.messagesClosed.append hx.bracketed hy.messagesClosed
  reasons := hx.reasons.append hx.counted hy.reasons

/-- Two steps in a row. -/
theorem Delivers.andThen {first : Step State ClaudeEvent} {next : State → Step State ClaudeEvent}
    (hfirst : Delivers s first.events first.state)
    (hnext : Delivers first.state (next first.state).events (next first.state).state) :
    Delivers s (first.andThen next).events (first.andThen next).state :=
  hfirst.trans hnext

/-- Whether an event neither starts a call nor is a message delta. -/
def Plain (e : ClaudeEvent) : Prop :=
  startsCall e = false ∧ isMessageDelta e = false

/-- Plain events have to fit what is open and to number the blocks. -/
theorem delivers_plain (hplain : ∀ e ∈ xs, Plain e)
    (hopened : openAfter? s.opened xs = some s'.opened)
    (hstarted : List.range s.started ++ startIndices xs = List.range s'.started)
    (hcalls : s.callCount = s'.callCount) (hfinished : s.finished = s'.finished) :
    Delivers s xs s' where
  bracketed := hopened
  numbered := hstarted
  called := by rw [callIds_of_none fun e he => (hplain e he).1, hcalls, List.append_nil]
  counted := by
    have hnone : xs.countP startsCall = 0 :=
      List.countP_eq_zero.mpr fun e he => ne_true_of_eq_false (hplain e he).1
    rw [hnone]
    exact hcalls
  messages := by
    have hnone : xs.countP isMessageDelta = 0 :=
      List.countP_eq_zero.mpr fun e he => ne_true_of_eq_false (hplain e he).2
    rw [hnone, hfinished]
    exact Nat.zero_add _
  messagesClosed := onlyClosed_of_none fun e he => (hplain e he).2
  reasons := reasonsTell_of_none fun e he => hasReason_of_not_messageDelta (hplain e he).2

/-- Nothing but a change of what no event depends on. -/
theorem delivers_nil (hopened : s.opened = s'.opened) (hstarted : s.started = s'.started)
    (hcalls : s.callCount = s'.callCount) (hfinished : s.finished = s'.finished) :
    Delivers s [] s' :=
  delivers_plain (List.forall_mem_nil _) (congrArg some hopened)
    (by rw [hstarted]; exact List.append_nil _) hcalls hfinished

theorem delivers_closeBlock (s : State) :
    Delivers s (closeBlock s).events (closeBlock s).state := by
  unfold closeBlock
  split
  · exact delivers_nil rfl rfl rfl rfl
  · rename_i kind hkind
    refine delivers_plain ?_ ?_ ?_ rfl rfl
    · exact List.forall_mem_singleton.mpr ⟨rfl, rfl⟩
    · simp [State.opened, hkind, openAfter?, next?]
    · simp [State.started, hkind, startIndices]

/-- After closing nothing is open, and nothing else has changed. -/
theorem closeBlock_state (s : State) :
    (closeBlock s).state.openKind = none ∧ (closeBlock s).state.callCount = s.callCount ∧
      (closeBlock s).state.finished = s.finished := by
  unfold closeBlock
  split
  · exact ⟨‹_›, rfl, rfl⟩
  · exact ⟨rfl, rfl, rfl⟩

theorem delivers_openBlock (kind : OpenKind) (s : State) :
    Delivers s (openBlock kind s).events (openBlock kind s).state := by
  unfold openBlock
  split
  · exact delivers_nil rfl rfl rfl rfl
  · refine (delivers_closeBlock s).andThen ?_
    have hclosed := (closeBlock_state s).1
    generalize (closeBlock s).state = s at hclosed ⊢
    refine delivers_plain ?_ ?_ ?_ rfl rfl
    · exact List.forall_mem_singleton.mpr ⟨by cases kind <;> rfl, rfl⟩
    · simp [State.opened, hclosed, openAfter?, next?]
    · simp [State.started, hclosed, startIndices, List.range_succ]

theorem openKind_openBlock (kind : OpenKind) (s : State) :
    (openBlock kind s).state.openKind = some kind := by
  unfold openBlock
  split
  · assumption
  · rfl

/-- Pieces of the open block leave it open. -/
theorem openAfter?_pieces {b : OpenBlock} {pieces : List BlockDelta}
    (h : ∀ piece ∈ pieces, piece.fits b.kind = true) :
    openAfter? (some b) (pieces.map (blockDelta b.index)) = some (some b) := by
  induction pieces with
  | nil => rfl
  | cons piece pieces ih =>
    obtain ⟨hpiece, hpieces⟩ := List.forall_mem_cons.mp h
    rw [List.map_cons, openAfter?, next?, if_pos ⟨rfl, hpiece⟩]
    exact ih hpieces

theorem delivers_addPieces {kind : OpenKind} {pieces : List BlockDelta}
    (h : ∀ piece ∈ pieces, piece.fits kind.opening = true) (s : State) :
    Delivers s (addPieces kind pieces s).events (addPieces kind pieces s).state := by
  refine (delivers_openBlock kind s).andThen ?_
  have hopen := openKind_openBlock kind s
  generalize (openBlock kind s).state = s at hopen ⊢
  have hopened : s.opened = some ⟨s.index, kind.opening⟩ := by rw [State.opened, hopen]; rfl
  refine delivers_plain ?_ ?_ ?_ rfl rfl
  · intro e he
    obtain ⟨piece, -, rfl⟩ := List.mem_map.mp he
    exact ⟨rfl, rfl⟩
  · rw [hopened]
    exact openAfter?_pieces h
  · have hstarts : startIndices (pieces.map (blockDelta s.index)) = [] := by
      refine List.filterMap_eq_nil_iff.mpr fun e he => ?_
      obtain ⟨piece, -, rfl⟩ := List.mem_map.mp he
      rfl
    rw [hstarts, List.append_nil]

theorem delivers_addText (part : Json) (text : Bytes) (s : State) :
    Delivers s (addText part text s).events (addText part text s).state := by
  unfold addText
  split
  · refine delivers_addPieces (fun piece hpiece => ?_) s
    rcases List.mem_cons.mp hpiece with rfl | hpiece
    · rfl
    · obtain ⟨signature, -, rfl⟩ := Option.map_eq_some_iff.mp (Option.mem_toList.mp hpiece)
      rfl
  · split
    · exact delivers_nil rfl rfl rfl rfl
    · exact delivers_addPieces (List.forall_mem_singleton.mpr rfl) s

/-- A call is a block of its own and takes the next id. -/
theorem delivers_addCall (call : Json) (s : State) :
    Delivers s (addCall call s).events (addCall call s).state := by
  refine (delivers_closeBlock s).andThen ?_
  have hclosed := (closeBlock_state s).1
  generalize (closeBlock s).state = s at hclosed ⊢
  exact
    { bracketed := by simp [State.opened, hclosed, openAfter?, next?, BlockDelta.fits]
      numbered := by simp [State.started, hclosed, startIndices, List.range_succ]
      called := by simp [callIds, List.range_succ]
      counted := rfl
      messages := Nat.zero_add _
      messagesClosed := onlyClosed_of_none (by simp [isMessageDelta])
      reasons := reasonsTell_of_none (by simp [hasReason]) }

theorem delivers_addPart (part : Json) (s : State) :
    Delivers s (addPart part s).events (addPart part s).state := by
  unfold addPart
  split
  · exact delivers_addText part _ s
  · split
    · exact delivers_addCall _ s
    · exact delivers_nil rfl rfl rfl rfl

theorem delivers_addParts (parts : List Json) (s : State) :
    Delivers s (addParts parts s).events (addParts parts s).state := by
  induction parts generalizing s with
  | nil => exact delivers_nil rfl rfl rfl rfl
  | cons part parts ih => exact (delivers_addPart part s).andThen (ih _)

/-- No finish reason of a Gemini stream is translated to a tool-use stop. -/
theorem geminiToClaude_ne_toolUse (reason : Bytes) :
    StopReason.geminiToClaude reason ≠ Bytes.ofString "tool_use" := by
  unfold StopReason.geminiToClaude
  split
  · decide
  · decide

theorem delivers_finish (reason : Bytes) (s : State) :
    Delivers s (finish reason s).events (finish reason s).state := by
  unfold finish
  split
  · exact delivers_nil rfl rfl rfl rfl
  · rename_i hfirst
    refine (delivers_closeBlock s).andThen ?_
    obtain ⟨hclosed, -, hfinished⟩ := closeBlock_state s
    have hopen : s.finished = false := by
      simpa using (not_or.mp (mt (Bool.or_eq_true _ _).mpr hfirst)).2
    rw [hopen] at hfinished
    generalize (closeBlock s).state = s at hclosed hfinished ⊢
    have hopened : s.opened = none := by rw [State.opened, hclosed]; rfl
    exact
      { bracketed := by rw [hopened]; exact congrArg some hopened.symm
        numbered := List.append_nil _
        called := List.append_nil _
        counted := rfl
        messages := by rw [hfinished]; rfl
        messagesClosed := by rw [hopened]; exact onlyClosed_singleton _
        reasons := reasonsTell_singleton _ (by
          by_cases hcalls : 0 < s.callCount
          · simp [hcalls]
          · simp [hcalls, geminiToClaude_ne_toolUse]) }

/-- The grammar does not depend on the usage that has come. -/
theorem delivers_of_usage (usage : Option Json) (h : Delivers { s with usage } xs s') :
    Delivers s xs s' :=
  ⟨h.bracketed, h.numbered, h.called, h.counted, h.messages, h.messagesClosed, h.reasons⟩

/-- A step takes in the parts of its chunk, and then its finish reason. -/
theorem onChunk_eq (s : State) (chunk : Json) :
    onChunk s chunk =
      (addParts (partsOf chunk)
        { s with usage := (chunk.objectField? "usageMetadata").or s.usage }).andThen
          (finish (reasonOf chunk)) := by
  unfold onChunk partsOf reasonOf
  dsimp only
  cases chunk.headField? "candidates" with
  | none => rfl
  | some candidate =>
    dsimp only
    -- the array that the step adds and the one that `partsOf` reads, spelled twice
    cases hcontent : candidate.objectField? "content" with
    | none => rw [Option.bind_some, hcontent]
    | some content => rw [Option.bind_some, hcontent]

/-- **What a chunk brings keeps to the grammar.** -/
theorem delivers_onChunk (s : State) (chunk : Json) :
    Delivers s (onChunk s chunk).events (onChunk s chunk).state := by
  refine delivers_of_usage ((chunk.objectField? "usageMetadata").or s.usage) ?_
  rw [onChunk_eq]
  exact (delivers_addParts _ _).andThen (delivers_finish _ _)

theorem delivers_overChunks (s : State) (chunks : List Json) :
    Delivers s (Step.overChunks onChunk s chunks).events
      (Step.overChunks onChunk s chunks).state :=
  Step.overChunks_induction (fun _ => delivers_nil rfl rfl rfl rfl) Delivers.trans
    delivers_onChunk s chunks

theorem delivers_onEnd (s : State) : Delivers s (onEnd s).events (onEnd s).state := by
  refine (delivers_closeBlock s).andThen ?_
  have hclosed := (closeBlock_state s).1
  generalize (closeBlock s).state = s at hclosed ⊢
  have hopened : s.opened = none := by rw [State.opened, hclosed]; rfl
  split
  · exact delivers_nil rfl rfl rfl rfl
  · rename_i hfirst
    have hopen : s.finished = false := by
      simpa using (not_or.mp (mt (Bool.or_eq_true _ _).mpr hfirst)).1
    exact
      { bracketed := by rw [hopened]; exact congrArg some hopened.symm
        numbered := List.append_nil _
        called := List.append_nil _
        counted := rfl
        messages := by rw [hopen]; rfl
        messagesClosed := by rw [hopened]; exact onlyClosed_singleton _
        reasons := reasonsTell_of_none (List.forall_mem_singleton.mpr rfl) }

/-! ## 2. Texts and thoughts -/

variable (thoughts : Bool)

theorem wordsOf_closeBlock (s : State) : wordsOf thoughts (closeBlock s).events = [] := by
  unfold closeBlock
  split <;> rfl

theorem wordsOf_openBlock (kind : OpenKind) (s : State) :
    wordsOf thoughts (openBlock kind s).events = [] := by
  unfold openBlock
  split
  · rfl
  · rw [Step.events_andThen, wordsOf_append, wordsOf_closeBlock]
    rfl

theorem wordsOf_addText (part : Json) (text : Bytes) (s : State) :
    wordsOf thoughts (addText part text s).events =
      if part.boolField "thought" = thoughts then text else [] := by
  unfold addText
  split
  · rename_i hthought
    rw [addPieces, Step.events_andThen, wordsOf_append, wordsOf_openBlock, hthought]
    -- a signature is neither text nor thought
    cases thoughts <;> cases Gemini.signature? part <;> simp [wordsOf]
  · rename_i hthought
    rw [Bool.not_eq_true] at hthought
    rw [hthought]
    split
    · rename_i hempty
      rw [List.isEmpty_iff.mp hempty, ite_self]
      rfl
    · rw [addPieces, Step.events_andThen, wordsOf_append, wordsOf_openBlock]
      cases thoughts <;> simp [wordsOf]

theorem wordsOf_addCall (call : Json) (s : State) :
    wordsOf thoughts (addCall call s).events = [] := by
  rw [addCall, Step.events_andThen, wordsOf_append, wordsOf_closeBlock]
  rfl

theorem wordsOf_addPart (part : Json) (s : State) :
    wordsOf thoughts (addPart part s).events = wordsIn thoughts [part] := by
  have hpart : wordsIn thoughts [part] =
      if part.boolField "thought" = thoughts then part.stringField "text" else [] := by
    by_cases hthought : part.boolField "thought" = thoughts
    · simp [wordsIn, hthought]
    · simp [wordsIn, hthought]
  rw [hpart, Json.stringField_eq]
  unfold addPart
  cases (part.field? "text").bind Json.string? with
  | some text => exact wordsOf_addText thoughts part text s
  | none =>
    rw [Option.getD_none, ite_self]
    cases part.objectField? "functionCall" with
    | none => rfl
    | some call => exact wordsOf_addCall thoughts call s

theorem wordsOf_addParts (parts : List Json) (s : State) :
    wordsOf thoughts (addParts parts s).events = wordsIn thoughts parts := by
  induction parts generalizing s with
  | nil => rfl
  | cons part parts ih =>
    have hsplit : wordsIn thoughts (part :: parts) =
        wordsIn thoughts [part] ++ wordsIn thoughts parts := by
      rw [wordsIn, ← List.singleton_append, List.filter_append, List.flatMap_append]
      rfl
    rw [addParts, Step.events_andThen, wordsOf_append, wordsOf_addPart, ih, hsplit]

theorem wordsOf_finish (reason : Bytes) (s : State) :
    wordsOf thoughts (finish reason s).events = [] := by
  unfold finish
  split
  · rfl
  · rw [Step.events_andThen, wordsOf_append, wordsOf_closeBlock]
    rfl

/-- A step delivers the texts and the thoughts of its chunk, and no others. -/
theorem wordsOf_onChunk (s : State) (chunk : Json) :
    wordsOf thoughts (onChunk s chunk).events = wordsIn thoughts (partsOf chunk) := by
  rw [onChunk_eq, Step.events_andThen, wordsOf_append, wordsOf_finish, List.append_nil,
    wordsOf_addParts]

theorem wordsOf_overChunks (s : State) (chunks : List Json) :
    wordsOf thoughts (Step.overChunks onChunk s chunks).events =
      chunks.flatMap fun chunk => wordsIn thoughts (partsOf chunk) := by
  induction chunks generalizing s with
  | nil => rfl
  | cons chunk chunks ih =>
    rw [Step.overChunks, Step.events_andThen, wordsOf_append, wordsOf_onChunk, ih,
      List.flatMap_cons]

theorem wordsOf_onEnd (s : State) : wordsOf thoughts (onEnd s).events = [] := by
  rw [onEnd, Step.events_andThen, wordsOf_append, wordsOf_closeBlock]
  split <;> rfl

/-! ## 3. Whole streams -/

/-- **The grammar of a whole stream** for the chunks of its lines. -/
structure Grammar (chunks : List Json) (events : List ClaudeEvent) : Prop where
  /-- Blocks are numbered from 0. -/
  numbered : ∃ n, startIndices events = List.range n
  /-- Blocks are opened and closed one at a time, pieces go to the open block and are of its kind,
      and no block is open at the end. -/
  bracketed : openAfter? none events = some none
  /-- The ids of tool calls are numbered from 0. -/
  called : ∃ n, callIds events = (List.range n).map Gemini.toolUseId
  /-- No two tool calls have one id. -/
  distinct : (callIds events).Nodup
  /-- The texts and the thoughts are those of the first candidates. -/
  words : ∀ thoughts, wordsOf thoughts events =
    chunks.flatMap fun chunk => wordsIn thoughts (partsOf chunk)
  /-- A message delta comes once at most. -/
  messageOnce : events.countP isMessageDelta ≤ 1
  /-- A message delta comes outside blocks. -/
  messagesClosed : OnlyClosed isMessageDelta none events
  /-- A stop reason is that of a tool call exactly when a call was delivered before it. -/
  reasons : ∀ before reason usage after,
    events = before ++ messageDelta (some reason) usage :: after →
      (reason = Bytes.ofString "tool_use" ↔ ∃ e ∈ before, startsCall e = true)

theorem toolUseId_injective : Function.Injective Gemini.toolUseId := fun _ _ h =>
  Bytes.ofNat_injective (List.append_cancel_left h)

/-- The events of any chunks and of the end follow the grammar. -/
theorem grammar_wholeEvents (lines : List Bytes) :
    Grammar (Chunk.objects lines) (Step.wholeEvents onChunk onEnd {} lines) := by
  have hchunks := delivers_overChunks {} (Chunk.objects lines)
  have hend := delivers_onEnd (Step.overChunks onChunk {} (Chunk.objects lines)).state
  have hall := hchunks.trans hend
  have hclosed : (onEnd (Step.overChunks onChunk {} (Chunk.objects lines)).state).state.opened =
      none := by
    generalize (Step.overChunks onChunk {} (Chunk.objects lines)).state = s
    have hkind := (closeBlock_state s).1
    rw [onEnd, Step.state_andThen]
    split
    · rw [State.opened, hkind]
      rfl
    · rw [State.opened, hkind]
      rfl
  refine
    { numbered := ⟨_, hall.numbered⟩
      bracketed := hall.bracketed.trans (congrArg some hclosed)
      called := ⟨_, hall.called⟩
      distinct := ?_
      words := fun thoughts => ?_
      messageOnce := Nat.le_trans (Nat.le.intro hall.messages) (Bool.toNat_le _)
      messagesClosed := hall.messagesClosed
      reasons := fun before reason usage after h => ?_ }
  · have hids : callIds (Step.wholeEvents onChunk onEnd {} lines) = _ := hall.called
    rw [hids]
    exact List.Pairwise.map _ (fun _ _ hne h => hne (toolUseId_injective h)) List.nodup_range
  · rw [Step.wholeEvents, wordsOf_append, wordsOf_overChunks, wordsOf_onEnd, List.append_nil]
  · rw [hall.reasons before reason usage after h]
    show 0 < 0 + _ ↔ _
    rw [Nat.zero_add, List.countP_pos_iff]

/-- What the end brings can be written. -/
theorem isText_of_mem_onEnd {s : State} {e : ClaudeEvent} (h : e ∈ (onEnd s).events) :
    e.isText = true := by
  rw [onEnd, Step.events_andThen] at h
  rcases List.mem_append.mp h with h | h
  · unfold closeBlock at h
    split at h
    · cases h
    · rcases List.mem_singleton.mp h with rfl
      rfl
  · split at h
    · cases h
    · rcases List.mem_singleton.mp h with rfl
      rfl

/-- **Every stream of a Gemini backend follows the grammar.** When no line fails, neither does the
    end, and what was written are events of the grammar. -/
theorem stream_blocks {lines : List Bytes} {fed : Step Transcoder Bytes}
    (hfed : (Transcoder.geminiToClaude {}).feed lines = .ok fed) :
    ∃ last, fed.state.onEnd = .ok last ∧
      ∃ events, events.mapM ClaudeEvent.render = .ok (fed.events ++ last.events) ∧
        Grammar (Chunk.objects lines) events := by
  obtain ⟨last, hlast, hwritten⟩ :=
    Transcoder.written_of_feed Transcoder.typed_geminiToClaude
      (fun _ _ he => ClaudeEvent.exists_render (isText_of_mem_onEnd he)) hfed
  exact ⟨last, hlast, _, hwritten, grammar_wholeEvents lines⟩

/-- A thought, a text, a function call and a finish reason: three events for each block, and the
    stop. -/
theorem stream_blocks_thought_text_call :
    let lines : List Bytes :=
      [Bytes.ofString ("data: \x7b\"candidates\":[\x7b\"content\":\x7b\"parts\":[" ++
          "\x7b\"text\":\"t\",\"thought\":true\x7d,\x7b\"text\":\"a\"\x7d]\x7d\x7d]\x7d"),
        Bytes.ofString ("data: \x7b\"candidates\":[\x7b\"content\":\x7b\"parts\":[" ++
        "\x7b\"functionCall\":\x7b\"name\":\"f\"\x7d\x7d]\x7d,\"finishReason\":\"STOP\"\x7d]\x7d")]
    ∃ fed, (Transcoder.geminiToClaude {}).feed lines = .ok fed ∧ fed.events.length = 10 ∧
      ∃ last, fed.state.onEnd = .ok last ∧
        ∃ events, events.mapM ClaudeEvent.render = .ok (fed.events ++ last.events) ∧
          Grammar (Chunk.objects lines) events := by
  intro lines
  have hten : ((Transcoder.geminiToClaude {}).feed lines).toOption.map (·.events.length) =
      some 10 := by decide +kernel
  obtain ⟨fed, hfed, hlength⟩ := exists_of_toOption_map hten
  exact ⟨fed, hfed, hlength, stream_blocks hfed⟩

end ChatRelay.GeminiToClaude
