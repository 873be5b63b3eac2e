import ChatRelay.Proofs.OpenAIBlocks
import ChatRelay.Proofs.ToolUseStops

/-!
# Indices of blocks

A Claude client files the deltas of a stream by what they say of their block, and puts each block
together from what is filed under it. The index alone does not tell a block of a chat completion
stream from the others: text blocks and tool calls are numbered apart. With the kind it does.

* `ClaudeEvent.collected_eq` -- what is filed under a key are the deltas of the blocks that have the
  key; so a block that has its key alone is put together as it was sent (`collected_of_countP`);
* `OpenAI.Cue` -- what a chunk asks of the text block; `textNumbers` -- the numbers that text blocks
  get from that, and `nodup_textNumbers_iff` -- when they are distinct;
* `OpenAIToClaude.Numbers` -- what a step does to the numbers, and `numbers_onChunk`;
* `Transcoder.Typed.render_wholeEvents` -- what any lines bring, those included that fail;
* `OpenAIToClaude.kind_and_index_identify_blocks` -- so kind and index identify the blocks, for any
  lines.
-/

namespace ChatRelay

/-! ## 1. Blocks and what is filed under a key -/

/-- What a block holds; the ids of tool calls are left out. -/
inductive BlockKind where
  | text
  | thinking
  | toolUse
  deriving DecidableEq

def BlockOpening.kind : BlockOpening → BlockKind
  | text => .text
  | thinking => .thinking
  | toolUse _ _ => .toolUse

/-- The kind of the block that a delta is a piece of. -/
def BlockDelta.kind : BlockDelta → BlockKind
  | text _ => .text
  | thinking _ => .thinking
  | signature _ => .thinking
  | input _ => .toolUse

theorem BlockDelta.kind_of_fits {delta : BlockDelta} {block : BlockOpening}
    (h : delta.fits block = true) : delta.kind = block.kind := by
  cases delta with
  | text piece =>
    cases block with
    | text => rfl
    | _ => cases h
  | input value =>
    cases block with
    | toolUse id name => rfl
    | _ => cases h
  | _ =>
    cases block with
    | thinking => rfl
    | _ => cases h

namespace ClaudeEvent

/-- The deltas up to where a block starts or stops. -/
def deltasHere : List ClaudeEvent → List BlockDelta
  | blockDelta _ delta :: events => delta :: deltasHere events
  | messageDelta _ _ :: events => deltasHere events
  | _ => []

/-- The blocks that are started, each with its deltas. -/
def blocksOf : List ClaudeEvent → List (OpenBlock × List BlockDelta)
  | blockStart index kind :: events => (⟨index, kind⟩, deltasHere events) :: blocksOf events
  | _ :: events => blocksOf events
  | [] => []

/-- The blocks that are started. -/
def starts (events : List ClaudeEvent) : List OpenBlock :=
  events.filterMap fun
    | blockStart index kind => some ⟨index, kind⟩
    | _ => none

theorem starts_append (xs ys : List ClaudeEvent) : starts (xs ++ ys) = starts xs ++ starts ys :=
  List.filterMap_append

theorem map_fst_blocksOf (events : List ClaudeEvent) :
    (blocksOf events).map (·.1) = starts events := by
  induction events with
  | nil => rfl
  | cons e events ih =>
    cases e with
    | blockStart index kind => exact congrArg (⟨index, kind⟩ :: ·) ih
    | _ => exact ih

/-- The indices at which blocks of a kind start. -/
def indicesOf (kind : BlockKind) (events : List ClaudeEvent) : List Nat :=
  ((starts events).filter (·.kind.kind = kind)).map (·.index)

theorem indicesOf_append (kind : BlockKind) (xs ys : List ClaudeEvent) :
    indicesOf kind (xs ++ ys) = indicesOf kind xs ++ indicesOf kind ys := by
  rw [indicesOf, starts_append, List.filter_append, List.map_append]
  rfl

theorem indicesOf_eq_nil {kind : BlockKind} {events : List ClaudeEvent}
    (h : ∀ b ∈ starts events, b.kind.kind ≠ kind) : indicesOf kind events = [] := by
  refine List.map_eq_nil_iff.mpr (List.filter_eq_nil_iff.mpr fun b hb => ?_)
  simpa using h b hb

theorem mem_indicesOf {events : List ClaudeEvent} {b : OpenBlock} (h : b ∈ starts events) :
    b.index ∈ indicesOf b.kind.kind events :=
  List.mem_map_of_mem (List.mem_filter.mpr ⟨h, decide_eq_true rfl⟩)

theorem indicesOf_toolUse (events : List ClaudeEvent) :
    indicesOf .toolUse events = callIndices events := by
  induction events with
  | nil => rfl
  | cons e events ih =>
    cases e with
    | blockStart index kind =>
      cases kind with
      | toolUse id name => exact congrArg (index :: ·) ih
      | _ => exact ih
    | _ => exact ih

section

variable {κ : Type} [DecidableEq κ] (key : Nat → BlockKind → κ)

/-- The key of a block. -/
def keyOf (b : OpenBlock) : κ :=
  key b.index b.kind.kind

/-- The deltas that a client has under a key, when it files each by its index and its kind. -/
def collected (k : κ) (events : List ClaudeEvent) : List BlockDelta :=
  events.filterMap fun
    | blockDelta index delta => if key index delta.kind = k then some delta else none
    | _ => none

theorem collected_cons_delta (k : κ) (index : Nat) (delta : BlockDelta)
    (events : List ClaudeEvent) :
    collected key k (blockDelta index delta :: events) =
      (if key index delta.kind = k then [delta] else []) ++ collected key k events := by
  by_cases hk : key index delta.kind = k <;> simp [collected, hk]

/-- What is still to come of the block that is open, if it has the key. -/
def pending (k : κ) (events : List ClaudeEvent) : Option OpenBlock → List BlockDelta
  | some b => if keyOf key b = k then deltasHere events else []
  | none => []

/-- **What is filed under a key are the deltas of the blocks with the key**, in turn, for events
    with none out of place. The induction is on the events, with the block that is open. -/
theorem collected_eq (k : κ) {b b' : Option OpenBlock} {events : List ClaudeEvent}
    (h : openAfter? b events = some b') :
    collected key k events = pending key k events b ++
      ((blocksOf events).filter fun block => keyOf key block.1 = k).flatMap (·.2) := by
  induction events generalizing b with
  | nil => cases b <;> simp [collected, pending, blocksOf, deltasHere]
  | cons e events ih =>
    obtain ⟨next, hnext, h⟩ := Option.bind_eq_some_iff.mp h
    have hrest := ih h
    cases e with
    | blockStart index kind =>
      cases b with
      | some b => cases hnext
      | none =>
        cases hnext
        show collected key k events = [] ++ _
        rw [hrest, blocksOf, List.filter_cons]
        by_cases hk : keyOf key ⟨index, kind⟩ = k <;> simp [pending, hk]
    | blockDelta index delta =>
      cases b with
      | none => cases hnext
      | some b =>
        obtain ⟨⟨rfl, hfits⟩, hb⟩ := Option.ite_none_right_eq_some.mp hnext
        cases hb
        have hkey : key b.index delta.kind = keyOf key b :=
          congrArg (key b.index) (BlockDelta.kind_of_fits hfits)
        rw [collected_cons_delta, hkey, hrest, ← List.append_assoc]
        -- the delta is the first of what is to come of the open block
        have hhere : (if keyOf key b = k then [delta] else []) ++ pending key k events (some b) =
            pending key k (blockDelta b.index delta :: events) (some b) := by
          by_cases hk : keyOf key b = k <;> simp [pending, deltasHere, hk]
        rw [hhere]
        rfl
    | blockStop index =>
      cases b with
      | none => cases hnext
      | some b =>
        obtain ⟨rfl, hb⟩ := Option.ite_none_right_eq_some.mp hnext
        cases hb
        show collected key k events = _
        rw [hrest]
        simp [pending, deltasHere, blocksOf]
    | messageDelta reason usage =>
      have hb : next = b := by
        cases b <;> exact (Option.some.inj hnext).symm
      subst hb
      exact hrest

/-- **A block that has its key alone is put together** from what is filed under it. -/
theorem collected_of_countP {events : List ClaudeEvent} {b : Option OpenBlock}
    (h : openAfter? none events = some b) {block : OpenBlock × List BlockDelta}
    (hblock : block ∈ blocksOf events)
    (hone : (starts events).countP (fun other => keyOf key other = keyOf key block.1) = 1) :
    collected key (keyOf key block.1) events = block.2 := by
  rw [← map_fst_blocksOf, List.countP_map, List.countP_eq_length_filter] at hone
  obtain ⟨only, honly⟩ := List.length_eq_one_iff.mp hone
  have hfound : block ∈ [only] := by
    rw [← honly]
    exact List.mem_filter.mpr ⟨hblock, decide_eq_true rfl⟩
  obtain rfl := List.mem_singleton.mp hfound
  rw [collected_eq key _ h]
  refine (congrArg (List.flatMap (·.2)) honly).trans ?_
  rw [List.flatMap_singleton]

end

/-- A delta is filed under the kind and the index of its block. -/
def kindAndIndex (index : Nat) (kind : BlockKind) : BlockKind × Nat :=
  (kind, index)

/-- A delta is filed under the index of its block. -/
def indexAlone (index : Nat) (_ : BlockKind) : Nat :=
  index

theorem countP_kindAndIndex (events : List ClaudeEvent) (k : BlockKind × Nat) :
    (starts events).countP (fun other => keyOf kindAndIndex other = k) =
      (indicesOf k.1 events).count k.2 := by
  rw [indicesOf, List.count_eq_countP, List.countP_map, List.countP_filter]
  refine List.countP_congr fun other _ => ?_
  simp [keyOf, kindAndIndex, Prod.ext_iff, and_comm]

variable {events : List ClaudeEvent} {b : Option OpenBlock} {block : OpenBlock × List BlockDelta}

/-- Blocks with distinct indices in each kind are apart. -/
theorem nodup_kindAndIndex (h : ∀ kind, (indicesOf kind events).Nodup) :
    ((starts events).map (keyOf kindAndIndex)).Nodup := by
  refine List.nodup_iff_count_le_one.mpr fun k => ?_
  have hcount : ((starts events).map (keyOf kindAndIndex)).count k =
      (indicesOf k.1 events).count k.2 := by
    rw [← countP_kindAndIndex, List.count_eq_countP, List.countP_map]
    exact List.countP_congr fun _ _ => by simp
  rw [hcount]
  exact List.nodup_iff_count_le_one.mp (h k.1) k.2

theorem countP_of_nodup (hblock : block ∈ blocksOf events)
    (hnodup : (indicesOf block.1.kind.kind events).Nodup) :
    (starts events).countP
      (fun other => keyOf kindAndIndex other = keyOf kindAndIndex block.1) = 1 := by
  have hstart : block.1 ∈ starts events := by
    rw [← map_fst_blocksOf]
    exact List.mem_map_of_mem hblock
  rw [countP_kindAndIndex]
  exact List.count_eq_one_of_mem hnodup (mem_indicesOf hstart)

/-- Blocks of a kind with distinct indices are put together by kind and index. -/
theorem collected_kindAndIndex (h : openAfter? none events = some b)
    (hblock : block ∈ blocksOf events)
    (hnodup : (indicesOf block.1.kind.kind events).Nodup) :
    collected kindAndIndex (block.1.kind.kind, block.1.index) events = block.2 :=
  collected_of_countP kindAndIndex h hblock (countP_of_nodup hblock hnodup)

/-- They are put together by the index alone, if no block of another kind has it. -/
theorem collected_indexAlone (h : openAfter? none events = some b)
    (hblock : block ∈ blocksOf events)
    (hnodup : (indicesOf block.1.kind.kind events).Nodup)
    (hother : ∀ other ∈ starts events, other.index = block.1.index →
      other.kind.kind = block.1.kind.kind) :
    collected indexAlone block.1.index events = block.2 := by
  refine collected_of_countP indexAlone h hblock ?_
  rw [← countP_of_nodup hblock hnodup]
  refine List.countP_congr fun other hmem => ?_
  rw [decide_eq_true_iff, decide_eq_true_iff]
  constructor
  · intro hindex
    exact Prod.ext (hother other hmem hindex) hindex
  · exact congrArg Prod.snd

end ClaudeEvent

/-! ## 2. What chunks ask of the text block -/

namespace OpenAI

/-- What a chunk asks of the text block: text goes on in it or opens one, tool calls and a finish
    reason close it. -/
inductive Cue where
  | text
  | calls
  | finish
  deriving DecidableEq

/-- The cues of a chunk. A list of tool calls is one, also where it is empty. -/
def cuesOf (chunk : Json) : List Cue :=
  (if (contentOf chunk).isEmpty then [] else [.text]) ++
    ((if ((deltaOf? chunk).bind (·.arrayField? "tool_calls")).isSome then [.calls] else []) ++
      if (reasonOf chunk).isEmpty then [] else [.finish])

/-- Whether text comes again after a finish reason that closed a text block. -/
def textAgain : List Cue → Bool
  | .text :: .finish :: cues => cues.contains .text
  | _ :: cues => textAgain cues
  | [] => false

/-- Whether a text block is open, and the number of the block that is open or comes next. -/
structure TextPlace where
  isOpen : Bool
  index : Nat

/-- Only tool calls that close a block move the number on. -/
def TextPlace.next : TextPlace → Cue → TextPlace
  | p, .text => { p with isOpen := true }
  | p, .calls => ⟨false, if p.isOpen then p.index + 1 else p.index⟩
  | p, .finish => { p with isOpen := false }

/-- The numbers of the text blocks that the cues open. -/
def textNumbers : TextPlace → List Cue → List Nat
  | _, [] => []
  | p, cue :: cues =>
    (if cue = .text ∧ p.isOpen = false then [p.index] else []) ++ textNumbers (p.next cue) cues

theorem textNumbers_append (p : TextPlace) (a b : List Cue) :
    textNumbers p (a ++ b) = textNumbers p a ++ textNumbers (a.foldl .next p) b := by
  induction a generalizing p with
  | nil => rfl
  | cons cue a ih =>
    rw [List.cons_append, textNumbers, ih, textNumbers, List.append_assoc]
    rfl

/-- Cues without text open nothing. -/
theorem textNumbers_of_not_mem {cues : List Cue} (h : .text ∉ cues) (p : TextPlace) :
    textNumbers p cues = [] := by
  induction cues generalizing p with
  | nil => rfl
  | cons cue cues ih =>
    obtain ⟨hcue, hcues⟩ := not_or.mp (mt List.mem_cons.mpr h)
    rw [textNumbers, if_neg fun hopen => hcue hopen.1.symm, ih hcues]
    rfl

/-- Text after a closed block opens the next one. -/
theorem mem_textNumbers_of_mem {cues : List Cue} (h : .text ∈ cues) (n : Nat) :
    n ∈ textNumbers ⟨false, n⟩ cues := by
  induction cues with
  | nil => cases h
  | cons cue cues ih =>
    cases cue with
    | text => exact List.mem_cons_self
    | calls => exact ih ((List.mem_cons.mp h).resolve_left (by decide))
    | finish => exact ih ((List.mem_cons.mp h).resolve_left (by decide))

/-- **The text blocks bear numbers in a row**, unless text comes again. The induction is on the
    cues, with a closed block and with an open one, which has its number already. -/
theorem textNumbers_eq_range' (cues : List Cue) (n : Nat) :
    (textAgain cues = false → ∃ k, textNumbers ⟨false, n⟩ cues = List.range' n k) ∧
      (textAgain (.text :: cues) = false →
        ∃ k, textNumbers ⟨true, n⟩ cues = List.range' (n + 1) k) := by
  induction cues generalizing n with
  | nil => exact ⟨fun _ => ⟨0, rfl⟩, fun _ => ⟨0, rfl⟩⟩
  | cons cue cues ih =>
    obtain ⟨hclosed, hopen⟩ := ih n
    cases cue with
    | text =>
      refine ⟨fun h => ?_, fun h => ?_⟩
      · obtain ⟨k, hk⟩ := hopen h
        exact ⟨k + 1, congrArg (n :: ·) hk⟩
      · exact hopen h
    | calls => exact ⟨hclosed, (ih (n + 1)).1⟩
    | finish =>
      refine ⟨hclosed, fun h => ⟨0, ?_⟩⟩
      have hnone : .text ∉ cues := by
        simpa [textAgain] using h
      exact textNumbers_of_not_mem hnone _

/-- Where text comes again, two text blocks bear one number. -/
theorem not_nodup_textNumbers (cues : List Cue) (n : Nat) :
    (textAgain cues = true → ¬ (textNumbers ⟨false, n⟩ cues).Nodup) ∧
      (textAgain (.text :: cues) = true → ¬ (n :: textNumbers ⟨true, n⟩ cues).Nodup) := by
  induction cues generalizing n with
  | nil =>
    refine ⟨fun h => ?_, fun h => ?_⟩
    · cases h
    · cases h
  | cons cue cues ih =>
    obtain ⟨hclosed, hopen⟩ := ih n
    cases cue with
    | text => exact ⟨hopen, hopen⟩
    | calls =>
      exact ⟨hclosed, fun h hnodup => (ih (n + 1)).1 h (List.nodup_cons.mp hnodup).2⟩
    | finish =>
      refine ⟨hclosed, fun h hnodup => ?_⟩
      have htext : .text ∈ cues := by
        simpa [textAgain] using h
      exact (List.nodup_cons.mp hnodup).1 (mem_textNumbers_of_mem htext n)

/-- **The numbers are distinct exactly where text does not come again.** -/
theorem nodup_textNumbers_iff (cues : List Cue) (n : Nat) :
    (textNumbers ⟨false, n⟩ cues).Nodup ↔ textAgain cues = false := by
  constructor
  · intro hnodup
    exact Bool.eq_false_iff.mpr fun h => (not_nodup_textNumbers cues n).1 h hnodup
  · intro h
    obtain ⟨k, hk⟩ := (textNumbers_eq_range' cues n).1 h
    rw [hk]
    exact List.nodup_range'

end OpenAI

/-! ## 3. What a step does to the numbers -/

namespace OpenAIToClaude

open ClaudeEvent
open OpenAI (Cue TextPlace cuesOf textNumbers textAgain)

/-- The text block as the cues see it. -/
def State.place (s : State) : TextPlace :=
  ⟨s.textOpen, s.textIndex⟩

/-- **What a step does to the numbers of blocks**: text blocks bear those that the cues give, and no
    block of thinking starts. -/
structure Numbers (s : State) (cues : List Cue) (step : Step State ClaudeEvent) : Prop where
  texts : indicesOf .text step.events = textNumbers s.place cues
  place : step.state.place = cues.foldl .next s.place
  thoughts : indicesOf .thinking step.events = []

variable {s : State}

theorem Numbers.andThen {a b : List Cue} {first : Step State ClaudeEvent}
    {next : State → Step State ClaudeEvent} (hfirst : Numbers s a first)
    (hnext : Numbers first.state b (next first.state)) :
    Numbers s (a ++ b) (first.andThen next) where
  texts := by
    rw [Step.events_andThen, indicesOf_append, hfirst.texts, hnext.texts, hfirst.place,
      OpenAI.textNumbers_append]
  place := by rw [Step.state_andThen, hnext.place, hfirst.place, List.foldl_append]
  thoughts := by
    rw [Step.events_andThen, indicesOf_append, hfirst.thoughts, hnext.thoughts]
    rfl

/-- A step without cues: it starts tool calls only, and leaves the text block as it is. -/
theorem numbers_nil {step : Step State ClaudeEvent}
    (hstarts : ∀ b ∈ starts step.events, b.kind.kind = .toolUse)
    (hplace : step.state.place = s.place) : Numbers s [] step where
  texts := indicesOf_eq_nil fun b hb => by rw [hstarts b hb]; decide
  place := hplace
  thoughts := indicesOf_eq_nil fun b hb => by rw [hstarts b hb]; decide

theorem numbers_addText (piece : Bytes) (s : State) :
    Numbers s (if piece.isEmpty then [] else [.text]) (addText piece s) := by
  unfold addText
  split
  · exact numbers_nil (List.forall_mem_nil _) rfl
  · -- a text that is open goes on, and otherwise one starts
    constructor
    all_goals cases hopen : s.textOpen
    all_goals simp [indicesOf, starts, textNumbers, State.place, hopen, TextPlace.next,
      BlockOpening.kind]

theorem starts_closeText (advance : Bool) (s : State) :
    starts (closeText advance s).events = [] := by
  unfold closeText
  split <;> rfl

theorem place_closeText (advance : Bool) (s : State) :
    (closeText advance s).state.place = s.place.next (if advance then .calls else .finish) := by
  unfold closeText
  cases hopen : s.textOpen <;> cases advance <;> simp [State.place, hopen, TextPlace.next]

theorem numbers_closeText (advance : Bool) (s : State) :
    Numbers s [if advance then .calls else .finish] (closeText advance s) where
  texts := by
    rw [indicesOf, starts_closeText]
    cases advance <;> rfl
  place := place_closeText advance s
  thoughts := by
    rw [indicesOf, starts_closeText]
    rfl

theorem starts_deliverCalls (calls : List (PendingCall × Json)) (s : State) :
    ∀ b ∈ starts (deliverCalls calls s).events, b.kind.kind = .toolUse := by
  induction calls generalizing s with
  | nil => exact List.forall_mem_nil _
  | cons c calls ih => exact List.forall_mem_cons.mpr ⟨rfl, ih (deliverCall c.1 c.2 s).state⟩

theorem place_deliverCalls (calls : List (PendingCall × Json)) (s : State) :
    (deliverCalls calls s).state.place = s.place := by
  induction calls generalizing s with
  | nil => rfl
  | cons c calls ih => exact ih (deliverCall c.1 c.2 s).state

theorem numbers_addCalls (pieces : List Json) (s : State) :
    Numbers s [.calls] (addCalls pieces s) :=
  (numbers_closeText true s).andThen
    (numbers_nil (starts_deliverCalls _ _) (place_deliverCalls _ _))

theorem numbers_addDelta (delta : Json) (s : State) :
    Numbers s
      ((if (delta.stringField "content").isEmpty then [] else [.text]) ++
        if (delta.arrayField? "tool_calls").isSome then [.calls] else [])
      (addDelta delta s) := by
  refine (numbers_addText _ s).andThen ?_
  cases delta.arrayField? "tool_calls" with
  | none => exact numbers_nil (List.forall_mem_nil _) rfl
  | some pieces => exact numbers_addCalls pieces _

theorem numbers_finish (reason : Bytes) (s : State) :
    Numbers s (if reason.isEmpty then [] else [.finish]) (finish reason s) := by
  unfold finish
  split
  · exact numbers_nil (List.forall_mem_nil _) rfl
  · refine (numbers_closeText false s).andThen ?_
    split
    · exact numbers_nil (List.forall_mem_nil _) rfl
    · exact numbers_nil (List.forall_mem_nil _) rfl

/-- **A chunk numbers text blocks by its cues.** -/
theorem numbers_onChunk (s : State) (chunk : Json) :
    Numbers s (cuesOf chunk) (onChunk s chunk) := by
  unfold onChunk cuesOf OpenAI.contentOf OpenAI.reasonOf OpenAI.deltaOf?
  cases chunk.headField? "choices" with
  | none =>
    refine numbers_nil ?_ rfl
    cases chunk.objectField? "usage" <;> exact List.forall_mem_nil _
  | some choice =>
    rw [Option.bind_some]
    dsimp only
    rw [← List.append_assoc]
    refine Numbers.andThen ?_ (numbers_finish _ _)
    cases choice.objectField? "delta" with
    | none => exact numbers_nil (List.forall_mem_nil _) rfl
    | some delta => exact numbers_addDelta delta s

theorem numbers_overChunks (s : State) (chunks : List Json) :
    Numbers s (chunks.flatMap cuesOf) (Step.overChunks onChunk s chunks) := by
  induction chunks generalizing s with
  | nil => exact numbers_nil (List.forall_mem_nil _) rfl
  | cons chunk chunks ih => exact (numbers_onChunk s chunk).andThen (ih _)

/-- The blocks of a whole stream: the end starts none. -/
theorem starts_wholeEvents (s : State) (lines : List Bytes) :
    starts (Step.wholeEvents onChunk onEnd s lines) =
      starts (Step.overChunks onChunk s (Chunk.objects lines)).events := by
  rw [Step.wholeEvents, starts_append, onEnd, Step.events_andThen, starts_append, starts_closeText]
  exact List.append_nil _

end OpenAIToClaude

/-! ## 4. Any lines -/

namespace Step

variable {σ ε : Type} {onChunk : σ → Json → Step σ ε} {onEnd : σ → Step σ ε}

/-- The events of a whole stream by its first line. -/
theorem wholeEvents_cons (s : σ) (line : Bytes) (lines : List Bytes) :
    let first := overChunks onChunk s (Chunk.ofLine line).data?.toList
    wholeEvents onChunk onEnd s (line :: lines) =
      first.events ++ wholeEvents onChunk onEnd first.state lines := by
  intro first
  obtain ⟨hstate, hevents⟩ := overChunks_append onChunk s (Chunk.ofLine line).data?.toList
    (Chunk.objects lines)
  have hobjects : Chunk.objects (line :: lines) =
      (Chunk.ofLine line).data?.toList ++ Chunk.objects lines := List.flatMap_cons
  rw [wholeEvents, hobjects, hstate, hevents, events_andThen, state_andThen, List.append_assoc]
  rfl

end Step

namespace Transcoder

variable {σ ε : Type} {wrap : σ → Transcoder} {component : Bytes} {onChunk : σ → Json → Step σ ε}
  {onEnd : σ → Step σ ε} {render : ε → Except RelayError Bytes}

/-- **What lines and the end bring** are the events of the chunks that the lines carry, also where
    lines fail. The induction is on the lines, for a transcoder that holds text. -/
theorem Typed.render_wholeEvents (ht : Typed wrap component onChunk onEnd render)
    (hreads : ∀ s, (wrap s).reads = true) {s : σ} (hs : (wrap s).IsText) (lines : List Bytes) :
    (Step.wholeEvents onChunk onEnd s lines).mapM render =
      .ok (((wrap s).brought lines).map (·.2)) := by
  induction lines generalizing s with
  | nil =>
    obtain ⟨last, hlast, -⟩ := hs.survives.ends
    obtain ⟨texts, htexts, hwritten⟩ := write_eq_ok_iff.mp ((ht.onEnd_eq s).symm.trans hlast)
    have hall : Step.wholeEvents onChunk onEnd s [] = (onEnd s).events := List.nil_append _
    rw [hall, htexts, brought, hlast, taken, ← hwritten, List.map_map]
    exact congrArg Except.ok (List.map_id _).symm
  | cons line lines ih =>
    rw [Step.wholeEvents_cons, brought, List.map_append]
    by_cases hreport : Chunk.Reports line
    · obtain ⟨report, hfound⟩ := hreport
      have hfails := hs.survives.fails (hreads s) line report (Chunk.ofLine_eq_error_iff.mp hfound)
      rw [hfound, take, hfails]
      exact ih hs
    · obtain ⟨typed, htyped, hstate, hevents⟩ :
          ∃ step, Step.onLine component onChunk s line = .ok step ∧
            step.Agrees (Step.overChunks onChunk s (Chunk.ofLine line).data?.toList) :=
        Step.onLine_agrees hreport
      obtain ⟨step, hstep, htext⟩ := hs.survives.goesOn line fun _ => hreport
      have honLine := (ht.onLine_eq s line).symm.trans hstep
      rw [htyped] at honLine
      obtain ⟨texts, htexts, rfl⟩ := write_eq_ok_iff.mp honLine
      rw [← hstate, ← hevents, take, hstep]
      refine mapM_append_eq_ok_iff.mpr ⟨texts, htexts, _, ih htext, ?_⟩
      rw [taken, List.map_map]
      exact congrArg (· ++ _) (List.map_id _).symm

end Transcoder

namespace OpenAIToClaude

open ClaudeEvent
open OpenAI (cuesOf textNumbers textAgain)

/-- The blocks of any lines: texts are numbered as their cues say, tool calls from 0, and there are
    no others. -/
theorem numbers_wholeEvents (lines : List Bytes) :
    let events := Step.wholeEvents onChunk onEnd {} lines
    indicesOf .text events = textNumbers ⟨false, 0⟩ ((Chunk.objects lines).flatMap cuesOf) ∧
      (∃ n, indicesOf .toolUse events = List.range n) ∧ indicesOf .thinking events = [] := by
  intro events
  have h := numbers_overChunks {} (Chunk.objects lines)
  have hsame (kind : BlockKind) : indicesOf kind events =
      indicesOf kind (Step.overChunks onChunk {} (Chunk.objects lines)).events := by
    rw [indicesOf, starts_wholeEvents]
    rfl
  refine ⟨(hsame .text).trans h.texts, ?_, (hsame .thinking).trans h.thoughts⟩
  rw [indicesOf_toolUse]
  exact (grammar_wholeEvents lines).numbered

/-- **How the blocks of a stream are told apart**, by the cues of its chunks. -/
structure Indexed (cues : List OpenAI.Cue) (events : List ClaudeEvent) : Prop where
  /-- Every block is a text or a tool call. -/
  kinds : ∀ b ∈ starts events, b.kind.kind = .text ∨ b.kind.kind = .toolUse
  /-- Tool calls are numbered from 0. -/
  calls : ∃ n, indicesOf .toolUse events = List.range n
  /-- A client that files deltas by kind and index puts every tool call together. -/
  callsTogether : ∀ block ∈ blocksOf events, block.1.kind.kind = .toolUse →
    collected kindAndIndex (.toolUse, block.1.index) events = block.2
  /-- Unless text comes again, texts are numbered from 0 too. -/
  texts : textAgain cues = false → ∃ n, indicesOf .text events = List.range n
  /-- Then no two blocks agree in kind and index, -/
  apart : textAgain cues = false →
    ((starts events).map (keyOf kindAndIndex)).Nodup
  /-- the client puts every block together, -/
  together : textAgain cues = false → ∀ block ∈ blocksOf events,
    collected kindAndIndex (block.1.kind.kind, block.1.index) events = block.2
  /-- and by the index alone those whose index no block of the other kind has. -/
  byIndex : textAgain cues = false → ∀ block ∈ blocksOf events,
    (∀ other ∈ starts events, other.index = block.1.index →
      other.kind.kind = block.1.kind.kind) →
    collected indexAlone block.1.index events = block.2

/-- **Kind and index identify a block**, for any lines, those included that fail: what was brought
    are events of which tool calls are always told apart, and texts as long as no text comes again
    after a finish reason that closed a text block. -/
theorem kind_and_index_identify_blocks (lines : List Bytes) :
    ∃ events, events.mapM render =
        .ok (((Transcoder.openaiToClaude {}).brought lines).map (·.2)) ∧
      Indexed ((Chunk.objects lines).flatMap cuesOf) events := by
  refine ⟨_, Transcoder.typed_openaiToClaude.render_wholeEvents (fun _ => rfl) isText_fresh lines,
    ?_⟩
  have hbracketed := (grammar_wholeEvents lines).bracketed
  obtain ⟨htexts, hcalls, hthoughts⟩ := numbers_wholeEvents lines
  generalize Step.wholeEvents onChunk onEnd {} lines = events at *
  have hcallsNodup : (indicesOf .toolUse events).Nodup := by
    obtain ⟨n, hn⟩ := hcalls
    rw [hn]
    exact List.nodup_range
  have htextsNodup (h : textAgain ((Chunk.objects lines).flatMap cuesOf) = false) :
      (indicesOf .text events).Nodup := by
    rw [htexts]
    exact (OpenAI.nodup_textNumbers_iff _ 0).mpr h
  have hnodup (h : textAgain ((Chunk.objects lines).flatMap cuesOf) = false) (kind : BlockKind) :
      (indicesOf kind events).Nodup := by
    cases kind with
    | text => exact htextsNodup h
    | thinking => rw [hthoughts]; exact List.nodup_nil
    | toolUse => exact hcallsNodup
  exact
    { kinds := fun b hb => by
        have hmem := mem_indicesOf hb
        cases hkind : b.kind.kind with
        | text => exact .inl rfl
        | thinking =>
          rw [hkind, hthoughts] at hmem
          cases hmem
        | toolUse => exact .inr rfl
      calls := hcalls
      callsTogether := fun block hblock hkind => by
        rw [← hkind] at hcallsNodup ⊢
        exact collected_kindAndIndex hbracketed hblock hcallsNodup
      texts := fun h => by
        obtain ⟨n, hn⟩ := (OpenAI.textNumbers_eq_range' _ 0).1 h
        exact ⟨n, by rw [htexts, hn, List.range_eq_range']⟩
      apart := fun h => nodup_kindAndIndex (hnodup h)
      together := fun h block hblock => collected_kindAndIndex hbracketed hblock (hnodup h _)
      byIndex := fun h block hblock hother =>
        collected_indexAlone hbracketed hblock (hnodup h _) hother }

/-- By the index alone a text and a tool call are not told apart: both start at 0, and a client that
    goes by the index puts the text and the input together. -/
theorem index_alone_not_unique :
    let lines : List Bytes :=
      [Bytes.ofString "data: \x7b\"choices\":[\x7b\"delta\":\x7b\"content\":\"a\"\x7d\x7d]\x7d",
        Bytes.ofString ("data: \x7b\"choices\":[\x7b\"delta\":\x7b\"tool_calls\":[\x7b\"id\":" ++
          "\"c\",\"function\":\x7b\"name\":\"f\",\"arguments\":\"\x7b\x7d\"\x7d\x7d]\x7d\x7d]\x7d")]
    ∃ events, events.mapM render =
        .ok (((Transcoder.openaiToClaude {}).brought lines).map (·.2)) ∧
      startIndices events = [0, 0] ∧ ¬ (startIndices events).Nodup ∧
      collected indexAlone 0 events = [.text "a", .input (.obj [])] := by
  intro lines
  have hwritten := Transcoder.typed_openaiToClaude.render_wholeEvents (fun _ => rfl) isText_fresh
    lines
  have hevents : Step.wholeEvents onChunk onEnd {} lines =
      [.blockStart 0 .text, .blockDelta 0 (.text "a"), .blockStop 0,
        .blockStart 0 (.toolUse "c" "f"), .blockDelta 0 (.input (.obj [])), .blockStop 0] := by
    decide +kernel
  rw [hevents] at hwritten
  exact ⟨_, hwritten, by decide, by decide, by decide⟩

end OpenAIToClaude

end ChatRelay
