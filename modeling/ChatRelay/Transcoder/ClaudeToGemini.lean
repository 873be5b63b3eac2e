import ChatRelay.StopReason
import ChatRelay.Stream.Event
import ChatRelay.Transcoder.ClaudeUsage
import ChatRelay.Transcoder.Step

/-!
# Claude events as Gemini chunks

Texts and thoughts are delivered piece by piece. The input of a tool call is gathered by the index
of its block, and the call delivered when the block stops.
-/

namespace ChatRelay.ClaudeToGemini

structure State where
  /-- The open tool blocks by their indices. -/
  blocks : Table Int PendingCall := []
  /-- The usage that the start of the message reported. -/
  usage : ClaudeUsage.Merged := none
  toolUseStop : Bool := false

def component : Bytes := "claude->gemini"

/-- Opens a tool block; other blocks need no opening. -/
def startBlock (index : Int) (block : Json) (s : State) : Step State GeminiChunk :=
  if block.stringField "type" = "tool_use" then
    { state :=
        { s with
          blocks := Table.insert s.blocks index
            ⟨block.stringField "id", block.stringField "name", []⟩ } }
  else { state := s }

/-- A chunk for a piece that is not empty. -/
def pieceChunk (piece : Bytes) (part : Json) : List GeminiChunk :=
  if piece.isEmpty then [] else [.part part]

/-- Delivers a piece of text or thought, or gathers a piece of input. -/
def addDelta (index : Int) (delta : Json) (s : State) : Step State GeminiChunk :=
  let type := delta.stringField "type"
  if type = "text_delta" then
    let text := delta.stringField "text"
    { state := s, events := pieceChunk text (Gemini.textPart text) }
  else if type = "thinking_delta" then
    let thought := delta.stringField "thinking"
    { state := s, events := pieceChunk thought (Gemini.thoughtPart (.str thought) none) }
  else if type = "input_json_delta" then
    match Table.find? s.blocks index with
    | some call =>
      let call := { call with arguments := call.arguments ++ delta.stringField "partial_json" }
      { state := { s with blocks := Table.insert s.blocks index call } }
    | none => { state := s }
  else { state := s }

/-- The input that was gathered; without any it is empty. -/
def gatheredInput? (call : PendingCall) : Option Json :=
  if call.arguments.isEmpty then some (.obj []) else Json.parse? call.arguments

/-- Delivers the call of a tool block. -/
def stopBlock (index : Int) (s : State) : Step State GeminiChunk :=
  match Table.find? s.blocks index with
  | none => { state := s }
  | some call =>
    let input := gatheredInput? call
    { state := { s with blocks := Table.erase s.blocks index }
      events := [.part (Gemini.callPart call.name (input.getD (.obj [])))]
      log :=
        if input.isSome then []
        else
          [.debug component (Bytes.ofString "tool input at block " ++ Bytes.ofInt index ++
            Bytes.ofString " is not JSON")] }

/-- Reports the end with the usage so far. -/
def finish (event : Json) (s : State) : Step State GeminiChunk :=
  let reason := ((event.field? "delta").getD .null).stringField "stop_reason"
  let usage := ClaudeUsage.merge s.usage (ClaudeUsage.ofMessageDelta event)
  { state := { s with toolUseStop := s.toolUseStop || reason == Bytes.ofString "tool_use" }
    events :=
      [.finish (StopReason.claudeToGemini reason)
        (usage.map fun fields => Usage.ofClaude (.obj fields))] }

def onChunk (s : State) (event : Json) : Step State GeminiChunk :=
  let type := event.stringField "type"
  let index := Word.toInt32 ((event.intField? "index").getD 0)
  if type = "message_start" then
    { state := { s with usage := ClaudeUsage.merge s.usage (ClaudeUsage.ofMessageStart event) } }
  else if type = "content_block_start" then
    startBlock index ((event.field? "content_block").getD .null) s
  else if type = "content_block_delta" then
    addDelta index ((event.field? "delta").getD .null) s
  else if type = "content_block_stop" then stopBlock index s
  else if type = "message_delta" then finish event s
  else { state := s }

/-- Tool blocks that never stopped are forgotten. -/
def onEnd (s : State) : Step State GeminiChunk :=
  { state := { s with blocks := [] } }

end ChatRelay.ClaudeToGemini
