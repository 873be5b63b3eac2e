import ChatRelay.StopReason
import ChatRelay.Stream.Event
import ChatRelay.Transcoder.Step

/-!
# Chat completion chunks as Claude events

Text opens a block that stays open until tool calls or a finish reason close it. A tool call is
delivered whole, as a block of its own, once its arguments are JSON. Text blocks and tool blocks are
numbered apart.
-/

namespace ChatRelay.OpenAIToClaude

/-- What is kept between chunks. The two block numbers are natural numbers, which 32-bit words agree
    with below `2 ^ 31` blocks. -/
structure State where
  textOpen : Bool := false
  textIndex : Nat := 0
  toolIndex : Nat := 0
  calls : Table Int PendingCall := []
  /-- Whether the tool-use stop has been delivered. -/
  toolUseStop : Bool := false

def component : Bytes := "openai->claude"

/-- Closes the text block, if one is open; `advance` makes the next one have a new number. -/
def closeText (advance : Bool) (s : State) : Step State ClaudeEvent :=
  if s.textOpen then
    { state :=
        { s with
          textOpen := false
          textIndex := if advance then s.textIndex + 1 else s.textIndex }
      events := [.blockStop s.textIndex] }
  else { state := s }

/-- Delivers a piece of text, in a new block if none is open. -/
def addText (piece : Bytes) (s : State) : Step State ClaudeEvent :=
  if piece.isEmpty then { state := s }
  else
    { state := { s with textOpen := true }
      events :=
        (if s.textOpen then [] else [.blockStart s.textIndex .text]) ++
          [.blockDelta s.textIndex (.text piece)] }

/-- Delivers a complete call. -/
def deliverCall (call : PendingCall) (arguments : Json) (s : State) : Step State ClaudeEvent :=
  { state := { s with toolIndex := s.toolIndex + 1 }
    events :=
      [.blockStart s.toolIndex (.toolUse call.id call.name),
        .blockDelta s.toolIndex (.input arguments), .blockStop s.toolIndex]
    log :=
      [.debug component (Bytes.ofString "tool call flushed at block " ++
        Bytes.ofNat s.toolIndex)] }

/-- Delivers complete calls in turn. -/
def deliverCalls : List (PendingCall × Json) → State → Step State ClaudeEvent
  | [], s => { state := s }
  | (call, arguments) :: rest, s => (deliverCall call arguments s).andThen (deliverCalls rest)

/-- Takes pieces of tool calls in and delivers the calls that are complete. -/
def addCalls (pieces : List Json) (s : State) : Step State ClaudeEvent :=
  (closeText true s).andThen fun s =>
    let calls := PendingCall.addPieces s.calls pieces
    deliverCalls (PendingCall.completed calls)
      { s with calls := PendingCall.incomplete calls }

/-- Takes a delta in: its text, then its tool calls. -/
def addDelta (delta : Json) (s : State) : Step State ClaudeEvent :=
  (addText (delta.stringField "content") s).andThen fun s =>
    match delta.arrayField? "tool_calls" with
    | some pieces => addCalls pieces s
    | none => { state := s }

/-- Closes the text at a finish reason, and reports a tool-use stop, the first one only. -/
def finish (reason : Bytes) (s : State) : Step State ClaudeEvent :=
  if reason.isEmpty then { state := s }
  else
    (closeText false s).andThen fun s =>
      if StopReason.callsTools reason && !s.toolUseStop then
        { state := { s with toolUseStop := true }
          events := [.messageDelta (some "tool_use") none] }
      else { state := s }

/-- A chunk with a choice brings its delta and its finish reason; one without may bring usage. -/
def onChunk (s : State) (chunk : Json) : Step State ClaudeEvent :=
  match chunk.headField? "choices" with
  | none =>
    { state := s
      events := ((chunk.objectField? "usage").map fun u =>
        ClaudeEvent.messageDelta none (some (Usage.ofOpenai u))).toList }
  | some choice =>
    let first : Step State ClaudeEvent :=
      match choice.objectField? "delta" with
      | some delta => addDelta delta s
      | none => { state := s }
    first.andThen (finish (choice.stringField "finish_reason"))

def onEnd (s : State) : Step State ClaudeEvent :=
  (closeText false s).andThen fun s =>
    { state := s, log := PendingCall.droppedEntries component s.calls }

end ChatRelay.OpenAIToClaude
