import ChatRelay.Proofs.Answers
import ChatRelay.Proofs.Assembling
import ChatRelay.Proofs.Objects

/-!
# Whole answers of a Gemini backend

A Gemini response as a whole (`GeminiAnswer`), and what a Claude client is sent for it: one block
for each part, a stop reason, and the usage.

* `GeminiAnswer.CutInto` -- the same answer in chunks;
* `GeminiAnswer.bare_claudeContent`, `field?_stop_reason`, `field?_usage` -- the converted response.

The converter makes the id of a call from the position of its part, and a stream counts the calls,
so the blocks are compared without ids.
-/

namespace ChatRelay

/-! ## 1. Answers -/

namespace Gemini

/-- **A text, a thought or a function call**: a part with a text that is not empty and no function
    call, or one with a function call and no text. -/
def Streams (part : Json) : Prop :=
  (∃ text, part.field? "text" = some (.str text) ∧ text ≠ [] ∧
      part.objectField? "functionCall" = none) ∨
    ∃ call, part.objectField? "functionCall" = some call ∧
      (part.field? "text").bind Json.string? = none

/-- Whether a part brings a function call. -/
def bringsCall (part : Json) : Bool :=
  (part.objectField? "functionCall").isSome

/-- What a Claude client is to see of a part. -/
def bareBlock (part : Json) : ContentBlock :=
  match (part.field? "text").bind Json.string? with
  | some text =>
    if part.boolField "thought" then .thinking (.str text) none else .text text
  | none =>
    let call := (part.objectField? "functionCall").getD .null
    .toolUse [] (call.stringField "name")
      (ContentBlock.inputOrEmpty ((call.field? "args").getD (.obj [])))

end Gemini

open Gemini (partsOf reasonOf bareBlock)

/-- What a Gemini backend answers. -/
structure GeminiAnswer where
  parts : List Json
  reason : Bytes
  usage : Json

namespace GeminiAnswer

/-- The response says this. -/
structure Of (a : GeminiAnswer) (reply : Json) : Prop where
  parts : partsOf reply = a.parts
  reason : reasonOf reply = a.reason
  usage : reply.objectField? "usageMetadata" = some a.usage

/-- Every part is a text, a thought or a function call; there is a finish reason; and the usage is
    reported in the Gemini dialect. -/
structure Proper (a : GeminiAnswer) : Prop where
  parts : ∀ part ∈ a.parts, Gemini.Streams part
  reason : a.reason ≠ []
  prompt : (a.usage.field? "promptTokenCount").isSome = true
  creation : a.usage.field? "cache_creation_input_tokens" = none
  read : a.usage.field? "cache_read_input_tokens" = none

/-- **The chunks make up the answer**: one after another they have its parts, and the last one has
    the finish reason and the usage. -/
structure CutInto (a : GeminiAnswer) (chunks : List Json) : Prop where
  parts : chunks.flatMap partsOf = a.parts
  last : ∃ before last, chunks = before ++ [last] ∧ (∀ chunk ∈ before, reasonOf chunk = []) ∧
    reasonOf last = a.reason ∧ last.objectField? "usageMetadata" = some a.usage

end GeminiAnswer

/-! ## 2. Claude replies -/

/-- The content of a Claude reply. -/
def claudeContent (reply : Json) : List ContentBlock :=
  ((reply.arrayField? "content").getD []).map ContentBlock.ofClaude

namespace Completion

/-- The keys of a Claude reply are different. -/
theorem field?_toClaude (c : Completion) (freshId key : Bytes) :
    (c.toClaude freshId).field? key =
      (Table.find? [(Bytes.ofString "id", Json.str (if c.id.isEmpty then freshId else c.id)),
          ("type", .str "message"), ("role", .str c.role.name),
          ("content", .arr (c.content.map ContentBlock.toClaude))] key).or
        ((Table.find?
          [(Bytes.ofString "model", if c.model.isEmpty then none else some (Json.str c.model)),
            ("stop_reason", if c.stopReason.isEmpty then none else some (.str c.stopReason)),
            ("stop_sequence", c.stopSequence.map .str),
            ("usage", c.usage.map Usage.toClaude)] key).join) := by
  refine Json.field?_objectWith_of_nodup ?_ key
  simp only [List.map_cons, List.map_nil]
  decide

theorem field?_stop_reason (c : Completion) (freshId : Bytes) :
    (c.toClaude freshId).field? "stop_reason" =
      if c.stopReason.isEmpty then none else some (.str c.stopReason) :=
  c.field?_toClaude freshId "stop_reason"

theorem field?_usage (c : Completion) (freshId : Bytes) :
    (c.toClaude freshId).field? "usage" = c.usage.map Usage.toClaude :=
  c.field?_toClaude freshId "usage"

end Completion

/-! ## 3. The response as a whole -/

namespace Gemini

variable {part : Json}

theorem bare_ofClaude_toClaude_toolUse (id name : Bytes) (input : Json) :
    (ContentBlock.ofClaude (ContentBlock.toolUse id name input).toClaude).bare =
      .toolUse [] name (ContentBlock.inputOrEmpty input) := rfl

theorem bare_ofClaude_toClaude_thinking (text : Bytes) (signature : Option Bytes) :
    (ContentBlock.ofClaude (ContentBlock.thinking (.str text) signature).toClaude).bare =
      .thinking (.str text) none := by
  cases signature <;> rfl

/-- The blocks that the converter makes of a part at any position. -/
theorem bare_replyBlocks (h : Streams part) (position : Nat) :
    ((replyTextBlock? part).toList ++ (replyCallBlock? part position).toList).map
      (fun block => (ContentBlock.ofClaude block.toClaude).bare) = [bareBlock part] := by
  rcases h with ⟨text, htext, hne, hcall⟩ | ⟨call, hcall, htext⟩
  · have hstring : part.stringField "text" = text := by
      rw [Json.stringField, Json.stringFieldD, htext]
    have hempty : text.isEmpty = false := by simpa using hne
    rw [replyCallBlock?, hcall, replyTextBlock?, hstring, hempty, bareBlock, htext]
    by_cases hthought : part.boolField "thought" = true
    · simp only [hthought, Bool.false_eq_true, ↓reduceIte]
      exact congrArg (fun b => [b]) (bare_ofClaude_toClaude_thinking text _)
    · simp only [hthought, Bool.false_eq_true, ↓reduceIte]
      rfl
  · rw [replyTextBlock?, Json.stringField_eq, htext, Option.getD_none, replyCallBlock?, hcall,
      bareBlock, htext, hcall]
    exact congrArg (fun b => [b]) (bare_ofClaude_toClaude_toolUse _ _ _)

/-- Whether the converter makes a call of a part does not depend on its position. -/
theorem isSome_replyCallBlock? (part : Json) (position : Nat) :
    (replyCallBlock? part position).isSome = (part.objectField? "functionCall").isSome := by
  rw [replyCallBlock?, Option.isSome_map]

theorem map_fst_replyParts (reply : Json) : (replyParts reply).map (·.1) = partsOf reply := by
  unfold replyParts partsOf
  cases (reply.headField? "candidates").bind (·.objectField? "content") with
  | none => rfl
  | some content => exact List.zipIdx_map_fst 0 _

end Gemini

namespace GeminiAnswer

open Gemini

variable {a : GeminiAnswer} {reply : Json}

/-- **The content of the converted response** is one block for each part. -/
theorem bare_claudeContent (h : a.Of reply) (hproper : a.Proper) (id : Bytes) :
    (claudeContent (responseToClaude reply id)).map ContentBlock.bare = a.parts.map bareBlock := by
  have hblocks (parts : List (Json × Nat)) (hparts : ∀ p ∈ parts, Streams p.1) :
      (parts.flatMap fun p =>
        (replyTextBlock? p.1).toList ++ (replyCallBlock? p.1 p.2).toList).map
          (fun block => (ContentBlock.ofClaude block.toClaude).bare) =
        (parts.map (·.1)).map bareBlock := by
    induction parts with
    | nil => rfl
    | cons p parts ih =>
      obtain ⟨hp, hrest⟩ := List.forall_mem_cons.mp hparts
      rw [List.flatMap_cons, List.map_append, bare_replyBlocks hp, ih hrest]
      rfl
  have hstreams : ∀ p ∈ replyParts reply, Streams p.1 := by
    intro p hp
    refine hproper.parts _ ?_
    rw [← h.parts, ← map_fst_replyParts]
    exact List.mem_map_of_mem hp
  rw [claudeContent, responseToClaude, arrayField?_toClaude, Option.getD_some, List.map_map,
    List.map_map, ← h.parts, ← map_fst_replyParts]
  exact hblocks _ hstreams

/-- The stop reason that a Claude client is told. -/
def stopReason (a : GeminiAnswer) : Bytes :=
  if a.parts.any bringsCall then "tool_use" else StopReason.geminiToClaude a.reason

theorem stopReason_completionOf (h : a.Of reply) (id : Bytes) :
    (completionOf reply id).stopReason = a.stopReason := by
  have hcalls : ((replyParts reply).any fun p => (replyCallBlock? p.1 p.2).isSome) =
      a.parts.any bringsCall := by
    rw [← h.parts, ← map_fst_replyParts, List.any_map]
    simp only [isSome_replyCallBlock?]
    rfl
  have hreason : ((reply.headField? "candidates").map (·.stringField "finishReason")).getD [] =
      a.reason := by
    rw [← h.reason, reasonOf]
    cases reply.headField? "candidates" <;> rfl
  unfold completionOf
  dsimp only
  rw [hcalls, hreason, stopReason]

theorem stopReason_ne_nil (a : GeminiAnswer) : a.stopReason.isEmpty = false := by
  unfold stopReason StopReason.geminiToClaude
  repeat' split
  all_goals rfl

/-- A report with a prompt count and without Claude's cache counts is a Gemini report. -/
theorem ofReport_usage (h : a.Of reply) (hproper : a.Proper) :
    Usage.ofReport a.usage = Usage.ofGemini a.usage := by
  have hobject : a.usage.isObject = true := by
    obtain ⟨field, -, hfield⟩ := Option.bind_eq_some_iff.mp h.usage
    obtain ⟨-, fields, hfields⟩ := Json.exists_obj_of_object? hfield
    rw [hfields]
    rfl
  have hdialect : Usage.dialectOf a.usage = .gemini := by
    rw [Usage.dialectOf, hproper.creation, hproper.read, hproper.prompt]
    rfl
  rw [Usage.ofReport, hobject, hdialect]
  rfl

theorem usage_completionOf (h : a.Of reply) (hproper : a.Proper) (id : Bytes) :
    (completionOf reply id).usage = some (Usage.ofGemini a.usage) := by
  show Completion.usageOf? reply "usageMetadata" = _
  rw [Completion.usageOf?, h.usage, Option.map_some, ofReport_usage h hproper]

theorem field?_stop_reason (h : a.Of reply) (id : Bytes) :
    (responseToClaude reply id).field? "stop_reason" = some (.str a.stopReason) := by
  rw [responseToClaude, Completion.field?_stop_reason, stopReason_completionOf h,
    a.stopReason_ne_nil]
  rfl

theorem field?_usage (h : a.Of reply) (hproper : a.Proper) (id : Bytes) :
    (responseToClaude reply id).field? "usage" = some (Usage.ofGemini a.usage).toClaude := by
  rw [responseToClaude, Completion.field?_usage, usage_completionOf h hproper]
  rfl

end GeminiAnswer

end ChatRelay
