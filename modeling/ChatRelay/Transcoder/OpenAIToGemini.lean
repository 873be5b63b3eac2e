import ChatRelay.StopReason
import ChatRelay.Stream.Event
import ChatRelay.Transcoder.Step

/-!
# Chat completion chunks as Gemini chunks

Every piece of text is a chunk of its own. A tool call is a chunk once its arguments are JSON.
-/

namespace ChatRelay.OpenAIToGemini

structure State where
  calls : Table Int PendingCall := []
  /-- Whether a finish reason asked for tools. -/
  toolUseStop : Bool := false

def component : Bytes := "openai->gemini"

/-- Delivers a piece of text. -/
def addText (piece : Bytes) (s : State) : Step State GeminiChunk :=
  { state := s
    events := if piece.isEmpty then [] else [.part (Gemini.textPart piece)] }

/-- Takes pieces of tool calls in and delivers the calls that are complete. -/
def addCalls (pieces : List Json) (s : State) : Step State GeminiChunk :=
  let calls := PendingCall.addPieces s.calls pieces
  { state := { s with calls := PendingCall.incomplete calls }
    events := (PendingCall.completed calls).map fun c =>
      .part (Gemini.callPart c.1.name c.2) }

/-- Takes a delta in: its text, then its tool calls. -/
def addDelta (delta : Json) (s : State) : Step State GeminiChunk :=
  (addText (delta.stringField "content") s).andThen fun s =>
    match delta.arrayField? "tool_calls" with
    | some pieces => addCalls pieces s
    | none => { state := s }

/-- Reports the end at a finish reason, with the usage of the same chunk. -/
def finish (reason : Bytes) (usage : Option Usage) (s : State) : Step State GeminiChunk :=
  if reason.isEmpty then { state := s }
  else
    { state := { s with toolUseStop := s.toolUseStop || StopReason.callsTools reason }
      events := [.finish (StopReason.openaiToGemini reason) usage] }

def onChunk (s : State) (chunk : Json) : Step State GeminiChunk :=
  let usage := (chunk.objectField? "usage").map Usage.ofOpenai
  match chunk.headField? "choices" with
  | none => { state := s, events := (usage.map GeminiChunk.usage).toList }
  | some choice =>
    let first : Step State GeminiChunk :=
      match choice.objectField? "delta" with
      | some delta => addDelta delta s
      | none => { state := s }
    first.andThen (finish (choice.stringField "finish_reason") usage)

def onEnd (s : State) : Step State GeminiChunk :=
  { state := s, log := PendingCall.droppedEntries component s.calls }

end ChatRelay.OpenAIToGemini
