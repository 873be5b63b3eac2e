import ChatRelay.Json.Reader
import ChatRelay.Proofs.Blocks

/-!
# Putting blocks together

What a Claude client makes of the events of a stream. It keeps one block at a time, appends the
pieces that come for it, and at the block's end has its content: the words of a text or a thought,
and for a tool call what the text of its input parses to (`assemble`). Ids and signatures are left
out (`ContentBlock.bare`).

A reply that comes as a whole may have texts side by side, which a stream delivers as one block.
`ContentBlock.merged` is the content with neighbours put together that a stream does not tell apart.

* `assemble_pieces` -- pieces add to the block that is open;
* `merged_cons` -- a block joins what has been gathered before it, or begins anew.
-/

namespace ChatRelay

/-! ## 1. Content -/

namespace ContentBlock

/-- The block without what the two ways of delivery tell differently: no id, no signature. -/
def bare : ContentBlock → ContentBlock
  | toolUse _ name input => toolUse [] name input
  | thinking thought _ => thinking thought none
  | other => other

/-- The one block that two neighbours make up, if they are texts or thoughts. -/
def join? : ContentBlock → ContentBlock → Option ContentBlock
  | text a, text b => some (text (a ++ b))
  | thinking (.str a) none, thinking (.str b) none => some (thinking (.str (a ++ b)) none)
  | _, _ => none

/-- `block` and the blocks behind it, neighbours put together. -/
def mergedFrom (block : ContentBlock) : List ContentBlock → List ContentBlock
  | [] => [block]
  | next :: rest =>
    match join? block next with
    | some joined => mergedFrom joined rest
    | none => block :: mergedFrom next rest

/-- **Content with neighbouring texts and neighbouring thoughts put together.** -/
def merged : List ContentBlock → List ContentBlock
  | [] => []
  | block :: rest => mergedFrom block rest

theorem merged_joined {a b c : ContentBlock} (h : join? a b = some c)
    (rest : List ContentBlock) : merged (a :: b :: rest) = merged (c :: rest) := by
  show mergedFrom a (b :: rest) = mergedFrom c rest
  rw [mergedFrom, h]

theorem merged_apart {a b : ContentBlock} (h : join? a b = none) (rest : List ContentBlock) :
    merged (a :: b :: rest) = a :: merged (b :: rest) := by
  show mergedFrom a (b :: rest) = a :: mergedFrom b rest
  rw [mergedFrom, h]

end ContentBlock

/-! ## 2. The client -/

/-- A block that is being put together. -/
structure Draft extends OpenBlock where
  /-- The pieces so far, joined: of the text, of the thought, or of the text of the input. -/
  words : Bytes := []
  deriving DecidableEq

/-- The content of a block at its end; there is none when the input is not JSON. -/
def Draft.block? (d : Draft) : Option ContentBlock :=
  match d.kind with
  | .text => some (.text d.words)
  | .thinking => some (.thinking (.str d.words) none)
  | .toolUse _ name => (Json.parse? d.words).map (.toolUse [] name)

/-- What a delta adds to the words of its block, as its value has it: a piece of a text, of a
    thought, or of the text of an input. A signature adds nothing. -/
def BlockDelta.words? (delta : BlockDelta) : Option Bytes :=
  delta.toJson.toOption.map fun value =>
    let type : Bytes := value.stringField "type"
    if type = Bytes.ofString "text_delta" then value.stringField "text"
    else if type = Bytes.ofString "thinking_delta" then value.stringField "thinking"
    else if type = Bytes.ofString "input_json_delta" then value.stringField "partial_json"
    else []

theorem BlockDelta.words?_input {input : Json} {text : Bytes} (h : input.dump = .ok text) :
    (BlockDelta.input input).words? = some text := by
  rw [words?, toJson, h]
  rfl

namespace ClaudeEvent

open ContentBlock (merged)

/-- **The blocks that a client puts together**, beginning with the one that is open. There are none
    when an event is out of place, when an input cannot be read, or when the last block is left
    open. -/
def assemble : Option Draft → List ClaudeEvent → Option (List ContentBlock)
  | none, [] => some []
  | none, blockStart index kind :: events => assemble (some { index, kind }) events
  | some d, blockDelta index delta :: events =>
    if index = d.index ∧ delta.fits d.kind = true then
      delta.words?.bind fun words => assemble (some { d with words := d.words ++ words }) events
    else none
  | some d, blockStop index :: events =>
    if index = d.index then
      d.block?.bind fun block => (assemble none events).map (block :: ·)
    else none
  | d, messageDelta _ _ :: events => assemble d events
  | _, _ => none

variable {d : Draft} {events : List ClaudeEvent}

theorem assemble_start (index : Nat) (kind : BlockOpening) (events : List ClaudeEvent) :
    assemble none (blockStart index kind :: events) =
      assemble (some { index, kind }) events := by
  rw [assemble]

theorem assemble_delta {delta : BlockDelta} (hfits : delta.fits d.kind = true) {words : Bytes}
    (hwords : delta.words? = some words) (events : List ClaudeEvent) :
    assemble (some d) (blockDelta d.index delta :: events) =
      assemble (some { d with words := d.words ++ words }) events := by
  rw [assemble, if_pos ⟨rfl, hfits⟩, hwords]
  rfl

theorem assemble_stop {block : ContentBlock} (h : d.block? = some block)
    (events : List ClaudeEvent) :
    assemble (some d) (blockStop d.index :: events) = (assemble none events).map (block :: ·) := by
  rw [assemble, if_pos rfl, h]
  rfl

/-- Pieces of the open block add to its words. -/
theorem assemble_pieces {pieces : List BlockDelta} {words : List Bytes}
    (hfits : ∀ piece ∈ pieces, piece.fits d.kind = true)
    (hwords : pieces.mapM BlockDelta.words? = some words) (events : List ClaudeEvent) :
    assemble (some d) (pieces.map (blockDelta d.index) ++ events) =
      assemble (some { d with words := d.words ++ words.flatten }) events := by
  induction pieces generalizing d words with
  | nil =>
    obtain rfl : [] = words := Option.some.inj hwords
    rw [List.flatten_nil, List.append_nil]
    rfl
  | cons piece pieces ih =>
    obtain ⟨hpiece, hpieces⟩ := List.forall_mem_cons.mp hfits
    rw [List.mapM_cons] at hwords
    obtain ⟨word, hword, hwords⟩ := Option.bind_eq_some_iff.mp hwords
    obtain ⟨more, hmore, hwords⟩ := Option.bind_eq_some_iff.mp hwords
    obtain rfl : word :: more = words := Option.some.inj hwords
    rw [List.map_cons, List.cons_append, assemble_delta hpiece hword,
      ih (d := { d with words := d.words ++ word }) hpieces hmore, List.flatten_cons,
      List.append_assoc]

/-- A call whose input is read back from its text. -/
theorem assemble_call (index : Nat) (id name : Bytes) {input : Json} {text : Bytes}
    (htext : input.dump = .ok text) (hread : Json.parse? text = some input)
    (events : List ClaudeEvent) :
    assemble none (blockStart index (.toolUse id name) :: blockDelta index (.input input) ::
        blockStop index :: events) =
      (assemble none events).map (.toolUse [] name input :: ·) := by
  let opened : Draft := { index, kind := .toolUse id name }
  have hwords := BlockDelta.words?_input htext
  have hblock : Draft.block? { opened with words := text } = some (.toolUse [] name input) := by
    show (Json.parse? text).map (ContentBlock.toolUse [] name) = _
    rw [hread]
    rfl
  rw [assemble_start, assemble_delta (d := opened) rfl hwords]
  exact assemble_stop hblock events

theorem assemble_message (d : Option Draft) (reason : Option Bytes) (usage : Option Usage)
    (events : List ClaudeEvent) :
    assemble d (messageDelta reason usage :: events) = assemble d events := by
  cases d <;> rw [assemble]

/-! ## 3. What events build -/

/-- The content of the block in progress, if there is one. -/
def inProgress (d : Option Draft) : List ContentBlock :=
  (d.bind Draft.block?).toList

/-- **The events build the blocks**, from one block in progress to another. What they finish does
    not change any more; the block in progress may still grow, as its neighbours join it. -/
def Builds (d : Option Draft) (events : List ClaudeEvent) (blocks : List ContentBlock)
    (d' : Option Draft) : Prop :=
  ∃ finished,
    (∀ rest, assemble d (events ++ rest) = (assemble d' rest).map (finished ++ ·)) ∧
      ∀ more, merged (inProgress d ++ (blocks ++ more)) = finished ++ merged (inProgress d' ++ more)

variable {o o' o'' : Option Draft} {xs ys : List ClaudeEvent} {bs cs : List ContentBlock}

theorem builds_nil (o : Option Draft) : Builds o [] [] o := by
  refine ⟨[], fun rest => ?_, fun more => rfl⟩
  exact (congrFun Option.map_id _).symm

theorem Builds.trans (hx : Builds o xs bs o') (hy : Builds o' ys cs o'') :
    Builds o (xs ++ ys) (bs ++ cs) o'' := by
  obtain ⟨first, hassemble, hmerged⟩ := hx
  obtain ⟨second, hassemble', hmerged'⟩ := hy
  refine ⟨first ++ second, fun rest => ?_, fun more => ?_⟩
  · rw [List.append_assoc, hassemble, hassemble', Option.map_map]
    congr 1
    funext blocks
    exact (List.append_assoc ..).symm
  · rw [List.append_assoc, hmerged, hmerged', List.append_assoc]

/-- When the last block is finished, the client has the blocks, merged. -/
theorem Builds.assemble_eq (h : Builds none xs bs o) (hlast : assemble o ys = some (inProgress o)) :
    assemble none (xs ++ ys) = some (merged bs) := by
  obtain ⟨finished, hassemble, hmerged⟩ := h
  have hone : merged (inProgress o) = inProgress o := by
    unfold inProgress
    cases o.bind Draft.block? <;> rfl
  have hblocks : merged bs = finished ++ inProgress o := by
    have hall := hmerged []
    rw [List.append_nil, List.append_nil, hone] at hall
    exact hall
  rw [hassemble, hlast, hblocks]
  rfl

end ClaudeEvent

end ChatRelay
