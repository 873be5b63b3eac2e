import ChatRelay.Proofs.ClaudeAnswers
import ChatRelay.Proofs.TextStates
import Mathlib.Data.List.Forall2

/-!
# Claude answers in events

A Claude reply may come as a whole or as a stream of events: the start of the message, block after
block in pieces, and the end. However it is cut (`Rendering.Of`), a Gemini client is sent what the
converter of the whole reply makes of it: the same parts, those of texts and thoughts in pieces, the
same finish reason and the same usage.

* `ContentBlock.CutInto` -- the events of one block;
* `Gemini.MadeOf` -- a part in pieces;
* `streamed_blocks_agree` -- the stream against the whole.
-/

namespace ChatRelay

/-! ## 1. Events -/

namespace ClaudeToGemini

/-- The index of the block that an event is about. -/
def indexOf (event : Json) : Int :=
  Word.toInt32 ((event.intField? "index").getD 0)

/-- What an event starts a block with. -/
def openingOf (event : Json) : Json :=
  (event.field? "content_block").getD .null

/-- What an event adds. -/
def deltaOf (event : Json) : Json :=
  (event.field? "delta").getD .null

/-- Whether an event is one of those that a message is made of. -/
def counts (event : Json) : Bool :=
  [Bytes.ofString "message_start", Bytes.ofString "content_block_start",
    Bytes.ofString "content_block_delta", Bytes.ofString "content_block_stop",
    Bytes.ofString "message_delta"].contains (event.stringField "type")

/-- An event that starts a block of some kind. -/
structure Opens (index : Int) (kind : Bytes) (event : Json) : Prop where
  type : event.stringField "type" = "content_block_start"
  index : indexOf event = index
  kind : (openingOf event).stringField "type" = kind

/-- An event that adds a piece of some kind to a block. -/
structure Adds (index : Int) (kind : Bytes) (event : Json) : Prop where
  type : event.stringField "type" = "content_block_delta"
  index : indexOf event = index
  kind : (deltaOf event).stringField "type" = kind

/-- An event that ends a block. -/
structure Closes (index : Int) (event : Json) : Prop where
  type : event.stringField "type" = "content_block_stop"
  index : indexOf event = index

instance (index : Int) (kind : Bytes) (event : Json) : Decidable (Opens index kind event) :=
  decidable_of_iff (_ ∧ _ ∧ _) ⟨fun ⟨h1, h2, h3⟩ => ⟨h1, h2, h3⟩, fun ⟨h1, h2, h3⟩ => ⟨h1, h2, h3⟩⟩

instance (index : Int) (kind : Bytes) (event : Json) : Decidable (Adds index kind event) :=
  decidable_of_iff (_ ∧ _ ∧ _) ⟨fun ⟨h1, h2, h3⟩ => ⟨h1, h2, h3⟩, fun ⟨h1, h2, h3⟩ => ⟨h1, h2, h3⟩⟩

instance (index : Int) (event : Json) : Decidable (Closes index event) :=
  decidable_of_iff (_ ∧ _) ⟨fun ⟨h1, h2⟩ => ⟨h1, h2⟩, fun ⟨h1, h2⟩ => ⟨h1, h2⟩⟩

/-- The pieces under a key that events add. -/
def piecesOf (key : Bytes) (events : List Json) : List Bytes :=
  events.map fun event => (deltaOf event).stringField key

end ClaudeToGemini

open ClaudeToGemini

/-- **The events of a block**, all with its index: its start, whose payload is not looked at, the
    pieces of its payload, and its end. The input of a tool call is what its pieces parse to; it is
    empty when they bring nothing. -/
inductive ContentBlock.CutInto (index : Int) : ContentBlock → List Json → Prop where
  | text {opening closing : Json} {deltas : List Json} (hopen : Opens index "text" opening)
      (hadd : ∀ event ∈ deltas, Adds index "text_delta" event) (hclose : Closes index closing) :
      CutInto index (.text (piecesOf "text" deltas).flatten) (opening :: (deltas ++ [closing]))
  | thinking {opening closing : Json} {deltas : List Json} (hopen : Opens index "thinking" opening)
      (hadd : ∀ event ∈ deltas, Adds index "thinking_delta" event)
      (hclose : Closes index closing) :
      CutInto index (.thinking (.str (piecesOf "thinking" deltas).flatten) none)
        (opening :: (deltas ++ [closing]))
  | toolUse {opening closing input : Json} {deltas : List Json}
      (hopen : Opens index "tool_use" opening)
      (hadd : ∀ event ∈ deltas, Adds index "input_json_delta" event)
      (hinput : ((piecesOf "partial_json" deltas).flatten = [] ∧ input = .obj []) ∨
        Json.parse? (piecesOf "partial_json" deltas).flatten = some input)
      (hclose : Closes index closing) :
      CutInto index
        (.toolUse ((openingOf opening).stringField "id") ((openingOf opening).stringField "name")
          input)
        (opening :: (deltas ++ [closing]))

/-- The events of a message, in groups. -/
structure Rendering where
  start : Json
  /-- The events of the blocks, block by block. -/
  groups : List (List Json)
  last : Json

namespace Rendering

/-- What a usage report says; null says nothing. -/
def reported : Json → List (Bytes × Json)
  | .obj fields => fields.filter fun field => !field.2.isNull
  | _ => []

/-- **The events render the answer.** Events of other types may stand between them. The usage is
    told in two parts, of which the second one counts where both tell a field. -/
structure Of (r : Rendering) (a : ClaudeAnswer) (events : List Json) : Prop where
  events_eq : events.filter counts = r.start :: (r.groups.flatten ++ [r.last])
  start : r.start.stringField "type" = "message_start"
  blocks : List.Forall₂ (fun block group => ∃ index, block.CutInto index group) a.blocks r.groups
  last : r.last.stringField "type" = "message_delta"
  reason : (deltaOf r.last).stringField "stop_reason" = a.reason
  usage : Json.object (reported (ClaudeUsage.ofMessageStart r.start) ++
    reported (ClaudeUsage.ofMessageDelta r.last)) = .obj a.usage

end Rendering

/-- A part in pieces: a text or a thought in one piece or more, a function call as it is. -/
inductive Gemini.MadeOf : Json → List Json → Prop where
  | text {pieces : List Bytes} (h : pieces ≠ []) :
      MadeOf (textPart pieces.flatten) (pieces.map textPart)
  | thought {pieces : List Bytes} (h : pieces ≠ []) :
      MadeOf (thoughtPart (.str pieces.flatten) none)
        (pieces.map fun piece => thoughtPart (.str piece) none)
  | call (name : Bytes) (args : Json) : MadeOf (callPart name args) [callPart name args]

/-! ## 2. Blocks -/

namespace ClaudeToGemini

variable {s : State} {event opening closing : Json} {deltas : List Json} {index : Int}
  {kind key : Bytes}

theorem onChunk_of_opens (h : Opens index kind event) :
    onChunk s event = startBlock index (openingOf event) s := by
  unfold onChunk
  rw [h.type]
  dsimp only
  rw [if_neg (by decide), if_pos rfl]
  exact congrArg (startBlock · (openingOf event) s) h.index

theorem onChunk_of_adds (h : Adds index kind event) :
    onChunk s event = addDelta index (deltaOf event) s := by
  unfold onChunk
  rw [h.type]
  dsimp only
  rw [if_neg (by decide), if_neg (by decide), if_pos rfl]
  exact congrArg (addDelta · (deltaOf event) s) h.index

theorem onChunk_of_closes (h : Closes index event) :
    onChunk s event = stopBlock index s := by
  unfold onChunk
  rw [h.type]
  dsimp only
  rw [if_neg (by decide), if_neg (by decide), if_neg (by decide), if_pos rfl]
  exact congrArg (stopBlock · s) h.index

/-- Other events bring nothing. -/
theorem onChunk_of_not_counts (s : State) (event : Json) (h : counts event = false) :
    (onChunk s event).Agrees { state := s } := by
  simp only [counts, List.contains_cons, List.contains_nil, Bool.or_false, Bool.or_eq_false_iff,
    beq_eq_false_iff_ne] at h
  obtain ⟨hstart, hopen, hadd, hclose, hlast⟩ := h
  unfold onChunk
  dsimp only
  rw [if_neg hstart, if_neg hopen, if_neg hadd, if_neg hclose, if_neg hlast]
  exact ⟨rfl, rfl⟩

/-- A text or a thought needs no opening. -/
theorem onChunk_of_opens_plain (h : Opens index kind event) (hkind : kind ≠ "tool_use") :
    onChunk s event = { state := s } := by
  rw [onChunk_of_opens h, startBlock, h.kind, if_neg hkind]

/-- Where no tool block is open, an end brings nothing. -/
theorem onChunk_of_closes_plain (h : Closes index event) (hs : s.blocks = []) :
    onChunk s event = { state := s } := by
  rw [onChunk_of_closes h, stopBlock, hs]
  rfl

/-- The pieces of a text or a thought go on one by one, those that are not empty. -/
theorem overChunks_pieces {part : Bytes → Json}
    (h : ∀ event ∈ deltas, onChunk s event =
      { state := s
        events := pieceChunk ((deltaOf event).stringField key)
          (part ((deltaOf event).stringField key)) }) :
    (Step.overChunks onChunk s deltas).Agrees
      { state := s
        events := ((piecesOf key deltas).filter (!·.isEmpty)).map (GeminiChunk.part ∘ part) } := by
  induction deltas with
  | nil => exact ⟨rfl, rfl⟩
  | cons event deltas ih =>
    obtain ⟨hevent, hrest⟩ := List.forall_mem_cons.mp h
    obtain ⟨hstate, hevents⟩ := ih hrest
    rw [Step.overChunks, hevent]
    refine ⟨hstate, ?_⟩
    rw [Step.events_andThen, hevents]
    show pieceChunk ((deltaOf event).stringField key) _ ++ _ =
      (((deltaOf event).stringField key :: piecesOf key deltas).filter _).map _
    generalize (deltaOf event).stringField key = piece
    cases piece <;> rfl

/-- The events of a block, one after another. -/
theorem overChunks_framed {opened added closed : Step State GeminiChunk}
    (hopen : onChunk s opening = opened)
    (hadd : (Step.overChunks onChunk opened.state deltas).Agrees added)
    (hclose : onChunk added.state closing = closed) :
    (Step.overChunks onChunk s (opening :: (deltas ++ [closing]))).Agrees
      { state := closed.state, events := opened.events ++ (added.events ++ closed.events) } := by
  obtain ⟨hstate, hevents⟩ := hadd
  obtain ⟨hall, hallEvents⟩ := Step.overChunks_append onChunk opened.state deltas [closing]
  rw [Step.overChunks, hopen]
  refine ⟨?_, ?_⟩
  · rw [Step.state_andThen, hall, Step.state_andThen, hstate, Step.overChunks, hclose]
    rfl
  · rw [Step.events_andThen, hallEvents, Step.events_andThen, hstate, hevents, Step.overChunks,
      hclose, Step.events_andThen]
    exact congrArg (fun events => opened.events ++ (added.events ++ events)) (List.append_nil _)

/-- A text or a thought brings its pieces, between events that bring nothing. -/
theorem overChunks_plain {part : Bytes → Json} (hs : s.blocks = []) (hkind : kind ≠ "tool_use")
    (hopen : Opens index kind opening)
    (hadd : ∀ event ∈ deltas, onChunk s event =
      { state := s
        events := pieceChunk ((deltaOf event).stringField key)
          (part ((deltaOf event).stringField key)) })
    (hclose : Closes index closing) :
    (Step.overChunks onChunk s (opening :: (deltas ++ [closing]))).Agrees
      { state := s
        events := (((piecesOf key deltas).filter (!·.isEmpty)).map part).map .part } := by
  have hframed := overChunks_framed (onChunk_of_opens_plain hopen hkind) (overChunks_pieces hadd)
    (onChunk_of_closes_plain hclose hs)
  refine ⟨hframed.1, hframed.2.trans ?_⟩
  rw [List.map_map]
  exact List.append_nil _

/-- The pieces of an input are gathered in the open block. -/
theorem overChunks_input (hadd : ∀ event ∈ deltas, Adds index "input_json_delta" event)
    {call : PendingCall} (hs : s.blocks = [(index, call)]) :
    (Step.overChunks onChunk s deltas).Agrees
      { state :=
          { s with
            blocks :=
              [(index,
                { call with
                  arguments :=
                    call.arguments ++ (piecesOf "partial_json" deltas).flatten })] } } := by
  induction deltas generalizing s call with
  | nil =>
    refine ⟨?_, rfl⟩
    show s = _
    rw [piecesOf, List.map_nil, List.flatten_nil, List.append_nil, ← hs]
  | cons event deltas ih =>
    obtain ⟨hevent, hrest⟩ := List.forall_mem_cons.mp hadd
    have hfind : Table.find? s.blocks index = some call := by
      rw [hs]
      exact if_pos rfl
    have hinsert (call' : PendingCall) :
        Table.insert s.blocks index call' = [(index, call')] := by
      rw [hs]
      exact if_pos rfl
    rw [Step.overChunks, onChunk_of_adds hevent, addDelta, hevent.kind]
    dsimp only
    rw [if_neg (by decide), if_neg (by decide), if_pos rfl, hfind]
    dsimp only
    rw [hinsert]
    obtain ⟨hstate, hevents⟩ := ih hrest (s := { s with blocks := [(index,
      { call with
        arguments := call.arguments ++ (deltaOf event).stringField "partial_json" })] }) rfl
    refine ⟨hstate.trans ?_, hevents⟩
    simp only [piecesOf, List.map_cons, List.flatten_cons, List.append_assoc]

/-- The input that the pieces of a call bring. -/
theorem gatheredInput?_eq {call : PendingCall} {input : Json}
    (h : (call.arguments = [] ∧ input = .obj []) ∨ Json.parse? call.arguments = some input) :
    gatheredInput? call = some input := by
  unfold gatheredInput?
  obtain ⟨hnone, rfl⟩ | hparse := h
  · rw [hnone]
    rfl
  · have hne : call.arguments ≠ [] := by
      intro hnone
      rw [hnone] at hparse
      cases hparse
    rw [if_neg (by simpa using hne), hparse]

/-- A tool block brings its call at its end. -/
theorem overChunks_call {input : Json} (hs : s.blocks = []) (hopen : Opens index "tool_use" opening)
    (hadd : ∀ event ∈ deltas, Adds index "input_json_delta" event)
    (hinput : ((piecesOf "partial_json" deltas).flatten = [] ∧ input = .obj []) ∨
      Json.parse? (piecesOf "partial_json" deltas).flatten = some input)
    (hclose : Closes index closing) :
    (Step.overChunks onChunk s (opening :: (deltas ++ [closing]))).Agrees
      { state := s
        events :=
          [.part (Gemini.callPart ((openingOf opening).stringField "name") input)] } := by
  let call : PendingCall :=
    ⟨(openingOf opening).stringField "id", (openingOf opening).stringField "name", []⟩
  let whole : PendingCall :=
    { call with arguments := (piecesOf "partial_json" deltas).flatten }
  have hopened : onChunk s opening = { state := { s with blocks := [(index, call)] } } := by
    rw [onChunk_of_opens hopen, startBlock, hopen.kind, if_pos rfl, hs]
    rfl
  have hclosed : onChunk { s with blocks := [(index, whole)] } closing =
      { state := s
        events := [.part (Gemini.callPart ((openingOf opening).stringField "name") input)] } := by
    have hfind : Table.find? [(index, whole)] index = some whole := if_pos rfl
    have herase : Table.erase [(index, whole)] index = s.blocks := by
      rw [hs]
      exact if_pos rfl
    have hgathered : gatheredInput? whole = some input := gatheredInput?_eq hinput
    rw [onChunk_of_closes hclose, stopBlock, hfind]
    dsimp only
    rw [herase, hgathered]
    rfl
  exact overChunks_framed hopened (overChunks_input hadd rfl) hclosed

/-- **A block brings its part**, in pieces. -/
theorem overChunks_block {block : ContentBlock} {group : List Json} (hs : s.blocks = [])
    (hcut : block.CutInto index group) (hstreams : block.Streams) :
    ∃ part pieces, Gemini.partOfReplyBlock? block = some part ∧ Gemini.MadeOf part pieces ∧
      (Step.overChunks onChunk s group).Agrees
        { state := s, events := pieces.map GeminiChunk.part } := by
  -- dropping the empty pieces leaves the whole as it is, and something is left of it
  have hkept {pieces : List Bytes} (hne : pieces.flatten ≠ []) :
      pieces.filter (!·.isEmpty) ≠ [] := by
    intro hnone
    rw [← List.flatten_filter_not_isEmpty, hnone] at hne
    exact hne rfl
  cases hcut with
  | @text opening closing deltas hopen hadd hclose =>
    refine ⟨_, ((piecesOf "text" deltas).filter (!·.isEmpty)).map Gemini.textPart, rfl, ?_, ?_⟩
    · rw [← List.flatten_filter_not_isEmpty]
      exact .text (hkept hstreams)
    · refine overChunks_plain hs (by decide) hopen (fun event hevent => ?_) hclose
      have h := hadd event hevent
      rw [onChunk_of_adds h, addDelta, h.kind]
      dsimp only
      rw [if_pos rfl]
  | @thinking opening closing deltas hopen hadd hclose =>
    refine ⟨_, ((piecesOf "thinking" deltas).filter (!·.isEmpty)).map
      fun piece => Gemini.thoughtPart (.str piece) none, rfl, ?_, ?_⟩
    · rw [← List.flatten_filter_not_isEmpty]
      exact .thought (hkept hstreams)
    · refine overChunks_plain hs (by decide) hopen (fun event hevent => ?_) hclose
      have h := hadd event hevent
      rw [onChunk_of_adds h, addDelta, h.kind]
      dsimp only
      rw [if_neg (by decide), if_pos rfl]
  | toolUse hopen hadd hinput hclose =>
    exact ⟨_, _, rfl, .call _ _, overChunks_call hs hopen hadd hinput hclose⟩

/-! ## 3. Messages -/

/-- **Blocks bring their parts**, in pieces and in their order. -/
theorem overChunks_blocks {blocks : List ContentBlock} {groups : List (List Json)}
    (hs : s.blocks = [])
    (hcut : List.Forall₂ (fun block group => ∃ index, block.CutInto index group) blocks groups)
    (hstreams : ∀ block ∈ blocks, block.Streams) :
    ∃ segments, List.Forall₂ Gemini.MadeOf (blocks.filterMap Gemini.partOfReplyBlock?) segments ∧
      (Step.overChunks onChunk s groups.flatten).Agrees
        { state := s, events := segments.flatten.map GeminiChunk.part } := by
  induction hcut with
  | nil => exact ⟨[], .nil, rfl, rfl⟩
  | @cons block group blocks groups hblock _ ih =>
    obtain ⟨hhead, htail⟩ := List.forall_mem_cons.mp hstreams
    obtain ⟨index, hblock⟩ := hblock
    obtain ⟨part, pieces, hpart, hmade, hstate, hevents⟩ := overChunks_block hs hblock hhead
    obtain ⟨segments, hsegments, hrestState, hrestEvents⟩ := ih htail
    obtain ⟨hall, hallEvents⟩ := Step.overChunks_append onChunk s group groups.flatten
    refine ⟨pieces :: segments, ?_, ?_, ?_⟩
    · rw [List.filterMap_cons_some hpart]
      exact .cons hmade hsegments
    · rw [List.flatten_cons, hall, Step.state_andThen, hstate]
      exact hrestState
    · rw [List.flatten_cons, hallEvents, Step.events_andThen, hstate, hevents, hrestEvents,
        List.flatten_cons, List.map_append]

/-- The usage after both reports of it, unless neither reported anything. -/
theorem merge_merge_eq {first second : Json} {fields : List (Bytes × Json)} (hne : fields ≠ [])
    (h : Json.object (Rendering.reported first ++ Rendering.reported second) = .obj fields) :
    ClaudeUsage.merge (ClaudeUsage.merge none first) second = some fields := by
  have hfields : Table.ofList (Rendering.reported first ++ Rendering.reported second) = fields :=
    Json.obj.inj h
  rw [Table.ofList, List.foldl_append] at hfields
  rw [← hfields] at hne ⊢
  -- a report that is no object reports nothing and is not merged
  cases first with
  | obj _ =>
    cases second with
    | obj _ => rfl
    | _ => rfl
  | _ =>
    cases second with
    | obj _ => rfl
    | _ => exact absurd rfl hne

end ClaudeToGemini

/-- **The stream agrees with the whole response**: it succeeds, it brings the parts of the response
    in their order, those of texts and thoughts in pieces, and its last chunk tells the finish
    reason and the usage of the response. -/
def BlocksAgree (reply : Json) (lines : List Bytes) : Prop :=
  ∃ fed, (Transcoder.claudeToGemini {}).feed lines = .ok fed ∧
    ∃ last, fed.state.onEnd = .ok last ∧
      ∃ segments finish,
        (segments.flatten.map GeminiChunk.part ++ [finish]).mapM GeminiChunk.render =
          .ok (fed.events ++ last.events) ∧
        List.Forall₂ Gemini.MadeOf (Gemini.partsOf (Gemini.responseOfClaude reply)) segments ∧
        (∃ reason, Gemini.finishReason? (Gemini.responseOfClaude reply) = some reason ∧
          Gemini.finishReason? finish.toJson = some reason) ∧
        ∃ usage, (Gemini.responseOfClaude reply).field? "usageMetadata" = some usage ∧
          finish.toJson.field? "usageMetadata" = some usage

variable {a : ClaudeAnswer} {r : Rendering} {reply : Json} {lines : List Bytes} {events : List Json}

/-- The events of an answer bring its parts in pieces, then its end. -/
theorem Rendering.Of.overChunks (h : r.Of a events) (hproper : a.Proper) :
    ∃ segments, List.Forall₂ Gemini.MadeOf a.parts segments ∧
      (Step.overChunks onChunk {} events).events = segments.flatten.map GeminiChunk.part ++
        [.finish (StopReason.claudeToGemini a.reason) (some (Usage.ofClaude (.obj a.usage)))] := by
  let started : State :=
    { usage := ClaudeUsage.merge none (ClaudeUsage.ofMessageStart r.start) }
  obtain ⟨segments, hsegments, hstate, hevents⟩ :=
    overChunks_blocks (s := started) rfl h.blocks hproper.blocks
  have hstart : onChunk {} r.start = { state := started } := by
    unfold onChunk
    rw [h.start]
    exact if_pos rfl
  have hlast : (onChunk started r.last).events =
      [.finish (StopReason.claudeToGemini a.reason)
        (some (Usage.ofClaude (.obj a.usage)))] := by
    have hreason : ((r.last.field? "delta").getD .null).stringField "stop_reason" = a.reason :=
      h.reason
    unfold onChunk
    rw [h.last]
    dsimp only
    rw [if_neg (by decide), if_neg (by decide), if_neg (by decide), if_neg (by decide), if_pos rfl,
      finish, hreason, merge_merge_eq hproper.usage_ne h.usage]
    rfl
  obtain ⟨-, hall⟩ := Step.overChunks_append onChunk started r.groups.flatten [r.last]
  refine ⟨segments, hsegments, ?_⟩
  rw [(Step.overChunks_filter onChunk_of_not_counts {} events).2, h.events_eq, Step.overChunks,
    hstart, Step.events_andThen]
  show [] ++ (Step.overChunks onChunk started (r.groups.flatten ++ [r.last])).events = _
  rw [List.nil_append, hall, Step.events_andThen, hstate, hevents, Step.overChunks,
    Step.events_andThen, hlast]
  rfl

/-- **A streamed Claude answer agrees with the whole one**, however its blocks are cut. -/
theorem streamed_blocks_agree (hreply : a.Of reply) (hproper : a.Proper)
    (hlines : ∀ line ∈ lines, ¬ Chunk.Reports line) (hrender : r.Of a (Chunk.objects lines)) :
    BlocksAgree reply lines := by
  have htext := (ClaudeToGemini.keepsText.overChunks ClaudeToGemini.isText_fresh
    (Chunk.isText_of_mem_objects lines)).events
  obtain ⟨fed, hfed, last, hlast, hwritten⟩ :=
    Transcoder.exists_written Transcoder.typed_claudeToGemini
      (fun _ _ he => absurd he List.not_mem_nil) hlines
      fun e he => GeminiChunk.exists_render (htext e he)
  obtain ⟨segments, hsegments, hevents⟩ := hrender.overChunks hproper
  refine ⟨fed, hfed, last, hlast, segments,
    .finish (StopReason.claudeToGemini a.reason) (some (Usage.ofClaude (.obj a.usage))), ?_, ?_,
    ⟨_, ClaudeAnswer.finishReason?_responseOfClaude hreply hproper, rfl⟩,
    _, ClaudeAnswer.usageMetadata_responseOfClaude hreply hproper, rfl⟩
  · rw [← hevents, ← hwritten, Step.wholeEvents]
    exact congrArg _ (List.append_nil _).symm
  · rw [ClaudeAnswer.partsOf_responseOfClaude hreply hproper]
    exact hsegments

/-- A text and an input in two pieces each, a thought in one, and a ping. The count of the output is
    told twice. -/
theorem streamed_blocks_agree_text_thought_call :
    let opens (index : Int) (block : List (Bytes × Json)) : Json := .object
      [("type", .str "content_block_start"), ("index", .int index),
        ("content_block", .object block)]
    let adds (index : Int) (kind key piece : Bytes) : Json := .object
      [("type", .str "content_block_delta"), ("index", .int index),
        ("delta", .object [("type", .str kind), (key, .str piece)])]
    let closes (index : Int) : Json :=
      .object [("type", .str "content_block_stop"), ("index", .int index)]
    let text := [adds 0 "text_delta" "text" "a", adds 0 "text_delta" "text" "b"]
    let thought := [adds 1 "thinking_delta" "thinking" "t"]
    let input := [adds 2 "input_json_delta" "partial_json" "\x7b\"x\"",
      adds 2 "input_json_delta" "partial_json" ":1\x7d"]
    let r : Rendering :=
      { start := .object [("type", .str "message_start"), ("message", .object
          [("usage", .object [("input_tokens", .int 3), ("output_tokens", .int 1)])])]
        groups :=
          [opens 0 [("type", .str "text"), ("text", .str [])] :: (text ++ [closes 0]),
            opens 1 [("type", .str "thinking"), ("thinking", .str [])] :: (thought ++ [closes 1]),
            opens 2 [("type", .str "tool_use"), ("id", .str "c"), ("name", .str "f")] ::
              (input ++ [closes 2])]
        last := .object [("type", .str "message_delta"),
          ("delta", .object [("stop_reason", .str "tool_use")]),
          ("usage", .object [("output_tokens", .int 7)])] }
    let events := r.start :: .object [("type", .str "ping")] :: (r.groups.flatten ++ [r.last])
    let lines := events.map fun event => Bytes.ofString "data: " ++ event.render
    let reply : Json := .object
      [("content", .arr [.object [("type", .str "text"), ("text", .str "ab")],
          .object [("type", .str "thinking"), ("thinking", .str "t")],
          .object [("type", .str "tool_use"), ("id", .str "c"), ("name", .str "f"),
            ("input", .object [("x", .int 1)])]]),
        ("stop_reason", .str "tool_use"),
        ("usage", .object [("input_tokens", .int 3), ("output_tokens", .int 7)])]
    BlocksAgree reply lines := by
  intro opens adds closes text thought input r events lines reply
  let a : ClaudeAnswer :=
    { blocks := [.text "ab", .thinking (.str "t") none, .toolUse "c" "f" (.obj [("x", .int 1)])]
      reason := "tool_use"
      usage := [("input_tokens", .int 3), ("output_tokens", .int 7)] }
  have hreply : a.Of reply := ⟨⟨_, rfl, by decide +kernel⟩, by decide +kernel, by decide +kernel⟩
  have hproper : a.Proper := by
    refine ⟨?_, by decide, by decide⟩
    simp only [a, List.forall_mem_cons]
    exact ⟨List.cons_ne_nil _ _, List.cons_ne_nil _ _, trivial, List.forall_mem_nil _⟩
  have hobjects : Chunk.objects lines = events ∧
      ∀ line ∈ lines, (Chunk.ofLine line).data?.isSome = true := by decide +kernel
  have htext : (ContentBlock.text "ab").CutInto 0 _ :=
    @ContentBlock.CutInto.text 0 (opens 0 [("type", .str "text"), ("text", .str [])]) (closes 0)
      text (by decide +kernel) (by decide +kernel) (by decide +kernel)
  have hthought : (ContentBlock.thinking (.str "t") none).CutInto 1 _ :=
    @ContentBlock.CutInto.thinking 1 (opens 1 [("type", .str "thinking"), ("thinking", .str [])])
      (closes 1) thought (by decide +kernel) (by decide +kernel) (by decide +kernel)
  have hcall : (ContentBlock.toolUse "c" "f" (.obj [("x", .int 1)])).CutInto 2 _ :=
    @ContentBlock.CutInto.toolUse 2
      (opens 2 [("type", .str "tool_use"), ("id", .str "c"), ("name", .str "f")]) (closes 2)
      (.obj [("x", .int 1)]) input (by decide +kernel) (by decide +kernel)
      (.inr (by decide +kernel)) (by decide +kernel)
  have hrender : r.Of a (Chunk.objects lines) := by
    rw [hobjects.1]
    exact ⟨by decide +kernel, by decide +kernel,
      .cons ⟨0, htext⟩ (.cons ⟨1, hthought⟩ (.cons ⟨2, hcall⟩ .nil)), by decide +kernel,
      by decide +kernel, by decide +kernel⟩
  exact streamed_blocks_agree hreply hproper
    (fun line hline => Chunk.not_reports_of_data? (hobjects.2 line hline)) hrender

end ChatRelay
