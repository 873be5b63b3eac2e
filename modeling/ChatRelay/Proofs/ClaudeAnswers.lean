import ChatRelay.Gemini.Response
import ChatRelay.Proofs.Chunks

/-!
# Whole answers of a Claude backend

A Claude reply as a whole (`ClaudeAnswer`), and what a Gemini client is sent for it: the parts of
its blocks, its finish reason, and its usage.

The converter of the whole reply guesses the dialect of a usage report from its fields, and takes
Claude's for OpenAI's when it has no cache counts. For a Gemini client that makes no difference
(`Usage.toGemini_ofReport`).
-/

namespace ChatRelay

/-! ## 1. Usage reports -/

namespace Usage

/-- The fields of a Claude report. -/
def claudeKeys : List Bytes :=
  ["input_tokens", "output_tokens", "total_tokens", "cache_creation_input_tokens",
    "cache_creation_5m_input_tokens", "cache_creation_1h_input_tokens", "cache_read_input_tokens"]

/-- A Gemini client is told of four counts. -/
theorem toGemini_congr {u v : Usage} (hinput : u.inputTokens = v.inputTokens)
    (houtput : u.outputTokens = v.outputTokens) (hread : u.cacheReadTokens = v.cacheReadTokens)
    (hreasoning : u.reasoningTokens = v.reasoningTokens) : u.toGemini = v.toGemini := by
  unfold toGemini
  rw [hinput, houtput, hread, hreasoning]

variable {fields : List (Bytes × Json)}

/-- Other fields are not there. -/
theorem field?_of_claudeKeys (h : ∀ field ∈ fields, field.1 ∈ claudeKeys) {key : Bytes}
    (hkey : key ∉ claudeKeys) : (Json.obj fields).field? key = none := by
  cases hfind : (Json.obj fields).field? key with
  | none => rfl
  | some value => exact absurd (h _ (Table.mem_of_find? hfind)) hkey

/-- Without cache counts a Claude report reads the same as an OpenAI report. -/
theorem toGemini_ofOpenai (h : ∀ field ∈ fields, field.1 ∈ claudeKeys)
    (hread : (Json.obj fields).field? "cache_read_input_tokens" = none) :
    (ofOpenai (.obj fields)).toGemini = (ofClaude (.obj fields)).toGemini := by
  have hint (key : Bytes) (hkey : key ∉ claudeKeys) : (Json.obj fields).intField? key = none := by
    rw [Json.intField?, field?_of_claudeKeys h hkey]
    rfl
  have hdetail (first second key : Bytes) (hfirst : first ∉ claudeKeys)
      (hsecond : second ∉ claudeKeys) : detail? (.obj fields) first second key = none := by
    rw [detail?, Json.objectField?, Json.objectField?, field?_of_claudeKeys h hfirst,
      field?_of_claudeKeys h hsecond]
    rfl
  have hcached := hdetail "input_tokens_details" "prompt_tokens_details" "cached_tokens"
    (by decide) (by decide)
  refine toGemini_congr ?_ ?_ ?_ ?_
  · rw [ofOpenai, hcached, hint "prompt_tokens" (by decide), Option.or_none]
    rfl
  · rw [ofOpenai, hint "completion_tokens" (by decide), Option.or_none]
    rfl
  · have hclaude : (Json.obj fields).intField? "cache_read_input_tokens" = none := by
      rw [Json.intField?, hread]
      rfl
    rw [ofOpenai, hcached]
    exact hclaude.symm
  · rw [ofOpenai, hdetail "output_tokens_details" "completion_tokens_details" "reasoning_tokens"
      (by decide) (by decide)]
    rfl

/-- **A Claude report counts as one** for a Gemini client, whatever dialect it is taken for. -/
theorem toGemini_ofReport (h : ∀ field ∈ fields, field.1 ∈ claudeKeys) :
    (ofReport (.obj fields)).toGemini = (ofClaude (.obj fields)).toGemini := by
  have hprompt : (Json.obj fields).field? "promptTokenCount" = none :=
    field?_of_claudeKeys h (by decide)
  have hobject : (Json.obj fields).isObject = true := rfl
  rw [ofReport, if_pos hobject]
  by_cases hcache : ((Json.obj fields).field? "cache_creation_input_tokens").isSome = true ∨
      ((Json.obj fields).field? "cache_read_input_tokens").isSome = true
  · rw [dialectOf, if_pos hcache]
  · obtain ⟨-, hread⟩ := not_or.mp hcache
    rw [dialectOf, if_neg hcache, hprompt]
    exact toGemini_ofOpenai h (Option.not_isSome_iff_eq_none.mp hread)

end Usage

/-! ## 2. Replies -/

/-- What a Claude reply holds. -/
structure ClaudeAnswer where
  blocks : List ContentBlock
  /-- The stop reason. -/
  reason : Bytes
  /-- The fields of the usage report. -/
  usage : List (Bytes × Json)

/-- A block that comes through a stream: a text or a thought that is not empty, the thought without
    a signature, or a tool call whose input is an object. -/
def ContentBlock.Streams : ContentBlock → Prop
  | .text words => words ≠ []
  | .thinking (.str thought) none => thought ≠ []
  | .toolUse _ _ (.obj _) => True
  | _ => False

namespace ClaudeAnswer

/-- The answer is that of this reply. -/
structure Of (a : ClaudeAnswer) (reply : Json) : Prop where
  content : ∃ items, reply.arrayField? "content" = some items ∧
    items.map ContentBlock.ofClaude = a.blocks
  reason : reply.stringField "stop_reason" = a.reason
  usage : reply.field? "usage" = some (.obj a.usage)

/-- An answer as it has to be: its blocks come through a stream, and it has a usage report of
    Claude's fields. -/
structure Proper (a : ClaudeAnswer) : Prop where
  blocks : ∀ block ∈ a.blocks, block.Streams
  usage_ne : a.usage ≠ []
  usage_keys : ∀ field ∈ a.usage, field.1 ∈ Usage.claudeKeys

variable {a : ClaudeAnswer} {reply : Json}

/-- The parts that a Gemini client is sent. -/
def parts (a : ClaudeAnswer) : List Json :=
  a.blocks.filterMap Gemini.partOfReplyBlock?

/-- The usage report that a Gemini client is sent. -/
def report (a : ClaudeAnswer) : Json :=
  (Usage.ofClaude (.obj a.usage)).toGemini

/-- **The response for a Gemini client** has the parts of the answer, its finish reason and its
    usage report. -/
theorem responseOfClaude_eq (h : a.Of reply) (hproper : a.Proper) :
    Gemini.responseOfClaude reply = .objectWith
      [("candidates", .arr [Gemini.candidate a.parts (StopReason.claudeToGemini a.reason)])]
      [("usageMetadata", some a.report)] := by
  obtain ⟨⟨items, hitems, hblocks⟩, hreason, husage⟩ := h
  have hparts : (items.filterMap fun b =>
      Gemini.partOfReplyBlock? (ContentBlock.ofClaude b)) = a.parts := by
    rw [parts, ← hblocks, List.filterMap_map]
    rfl
  have hreport : Gemini.usageReport? reply "usage" = some a.report := by
    rw [report, ← Usage.toGemini_ofReport hproper.usage_keys, Gemini.usageReport?,
      Completion.usageOf?, Json.objectField?, husage]
    rfl
  rw [Gemini.responseOfClaude, hitems]
  dsimp only
  rw [hparts, hreason, hreport]

theorem partsOf_responseOfClaude (h : a.Of reply) (hproper : a.Proper) :
    Gemini.partsOf (Gemini.responseOfClaude reply) = a.parts := by
  rw [responseOfClaude_eq h hproper]
  rfl

theorem finishReason?_responseOfClaude (h : a.Of reply) (hproper : a.Proper) :
    Gemini.finishReason? (Gemini.responseOfClaude reply) =
      some (.str (StopReason.claudeToGemini a.reason)) := by
  rw [responseOfClaude_eq h hproper]
  rfl

theorem usageMetadata_responseOfClaude (h : a.Of reply) (hproper : a.Proper) :
    (Gemini.responseOfClaude reply).field? "usageMetadata" = some a.report := by
  rw [responseOfClaude_eq h hproper]
  rfl

end ClaudeAnswer

end ChatRelay
