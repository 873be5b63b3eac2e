import ChatRelay.Proofs.ReaderRules
import ChatRelay.Proofs.Transcript

/-!
# What chunks say

The parts of a chunk that a transcoder reads: of a chat completion chunk the text, the pieces of
tool calls and the finish reason (`OpenAI.contentOf`, `piecesOf`, `reasonOf`), of a Gemini chunk the
parts and the finish reason (`Gemini.partsOf`, `Gemini.finishReason?`). All of it is read from the
first choice or candidate. The objects that lines carry are text (`isText_of_mem_objects`).
-/

namespace ChatRelay

/-! ## 1. Chat completion chunks -/

namespace OpenAI

/-- The delta of the first choice. -/
def deltaOf? (chunk : Json) : Option Json :=
  (chunk.headField? "choices").bind (·.objectField? "delta")

/-- The text of a chunk. -/
def contentOf (chunk : Json) : Bytes :=
  match deltaOf? chunk with
  | some delta => delta.stringField "content"
  | none => []

/-- The pieces of tool calls in a chunk. -/
def piecesOf (chunk : Json) : List Json :=
  match deltaOf? chunk with
  | some delta => (delta.arrayField? "tool_calls").getD []
  | none => []

/-- The finish reason of a chunk; it is empty when there is none. -/
def reasonOf (chunk : Json) : Bytes :=
  match chunk.headField? "choices" with
  | some choice => choice.stringField "finish_reason"
  | none => []

variable {chunk : Json}

theorem isText_of_deltaOf? {delta : Json} (h : chunk.isText = true)
    (hdelta : deltaOf? chunk = some delta) : delta.isText = true := by
  obtain ⟨choice, hchoice, hdelta⟩ := Option.bind_eq_some_iff.mp hdelta
  exact Json.isText_objectField? (Json.isText_headField? h hchoice) hdelta

theorem isText_of_mem_piecesOf (h : chunk.isText = true) :
    ∀ piece ∈ piecesOf chunk, piece.isText = true := by
  unfold piecesOf
  split
  · rename_i delta hdelta
    cases hpieces : delta.arrayField? "tool_calls" with
    | none => exact List.forall_mem_nil _
    | some pieces => exact Json.isText_of_mem_arrayField? (isText_of_deltaOf? h hdelta) hpieces
  · exact List.forall_mem_nil _

end OpenAI

/-! ## 2. Gemini chunks -/

namespace Gemini

/-- The parts of the first candidate. -/
def partsOf (chunk : Json) : List Json :=
  match (chunk.headField? "candidates").bind (·.objectField? "content") with
  | some content => (content.arrayField? "parts").getD []
  | none => []

/-- Whether a part is a function call. -/
def isCall (part : Json) : Bool :=
  (part.field? "functionCall").isSome

/-- The finish reason of the first candidate, if it has one. -/
def finishReason? (chunk : Json) : Option Json :=
  (chunk.headField? "candidates").bind (·.field? "finishReason")

/-- The finish reason as a text; it is empty when there is none. -/
def reasonOf (chunk : Json) : Bytes :=
  match chunk.headField? "candidates" with
  | some candidate => candidate.stringField "finishReason"
  | none => []

/-- The parts have what a chunk hands down. -/
theorem of_mem_partsOf {p : Json → Prop} (hp : Json.Hereditary p) {chunk : Json} (h : p chunk) :
    ∀ part ∈ partsOf chunk, p part := by
  unfold partsOf
  split
  · rename_i content hcontent
    obtain ⟨candidate, hcandidate, hcontent⟩ := Option.bind_eq_some_iff.mp hcontent
    cases hparts : content.arrayField? "parts" with
    | none => exact List.forall_mem_nil _
    | some parts =>
      exact hp.of_mem_arrayField? (hp.objectField? (hp.headField? h hcandidate) hcontent) hparts
  · exact List.forall_mem_nil _

end Gemini

/-! ## 3. Chunks of lines -/

namespace Chunk

/-- The object of a line was read from its payload. -/
theorem exists_parse?_of_data {line : Bytes} {object : Json} (h : ofLine line = .data object) :
    ∃ payload, Json.parse? payload = some object := by
  unfold ofLine at h
  split at h
  · cases h
  · rename_i payload _
    split at h
    · cases h
    · split at h
      · cases h
      · rename_i read hread
        obtain ⟨j, hparse, hj⟩ := Option.bind_eq_some_iff.mp hread
        obtain rfl : j = read := (Option.ite_none_right_eq_some.mp hj).2 |> Option.some.inj
        refine ⟨payload, ?_⟩
        split at h
        · cases h
          exact hparse
        · cases h
          exact hparse
        · cases h

theorem exists_parse?_of_mem_objects {lines : List Bytes} {chunk : Json}
    (h : chunk ∈ objects lines) : ∃ payload, Json.parse? payload = some chunk := by
  obtain ⟨line, -, hline⟩ := List.mem_flatMap.mp h
  cases hof : ofLine line with
  | data object =>
    rw [hof] at hline
    obtain rfl : chunk = object := List.mem_singleton.mp hline
    exact exists_parse?_of_data hof
  | _ =>
    rw [hof] at hline
    cases hline

/-- The objects that lines carry are text. -/
theorem isText_of_mem_objects (lines : List Bytes) :
    ∀ chunk ∈ objects lines, chunk.isText = true := by
  intro chunk hchunk
  obtain ⟨payload, hparse⟩ := exists_parse?_of_mem_objects hchunk
  exact Json.isText_of_parse? hparse

end Chunk

end ChatRelay
