import ChatRelay.StopReason
import ChatRelay.Stream.Event
import ChatRelay.Transcoder.Step

/-!
# Gemini chunks as Claude events

Blocks are numbered in one run. Texts and thoughts are delivered as they come, in a block that stays
open until something of another kind follows; a function call is a block of its own. One message
delta reports the end and the usage.
-/

namespace ChatRelay.GeminiToClaude

/-- The kind of an open block. -/
inductive OpenKind where
  | text
  | thinking
  deriving DecidableEq

/-- What is kept between chunks. The block number and the count of calls are natural numbers, which
    32-bit words agree with below `2 ^ 31` blocks. -/
structure State where
  openKind : Option OpenKind := none
  /-- The number of the open block, or of the next one. -/
  index : Nat := 0
  callCount : Nat := 0
  /-- Whether the message delta has been delivered. -/
  finished : Bool := false
  /-- Whether it reported a tool-use stop. -/
  toolUseStop : Bool := false
  /-- The last usage object that came. -/
  usage : Option Json := none

def component : Bytes := "gemini->claude"

def OpenKind.opening : OpenKind → BlockOpening
  | text => .text
  | thinking => .thinking

/-- Closes the open block, if there is one. -/
def closeBlock (s : State) : Step State ClaudeEvent :=
  match s.openKind with
  | none => { state := s }
  | some _ =>
    { state := { s with openKind := none, index := s.index + 1 }
      events := [.blockStop s.index] }

/-- Makes sure that a block of this kind is open. -/
def openBlock (kind : OpenKind) (s : State) : Step State ClaudeEvent :=
  if s.openKind = some kind then { state := s }
  else
    (closeBlock s).andThen fun s =>
      { state := { s with openKind := some kind }
        events := [.blockStart s.index kind.opening] }

/-- Delivers pieces of a block of some kind. -/
def addPieces (kind : OpenKind) (pieces : List BlockDelta) (s : State) : Step State ClaudeEvent :=
  (openBlock kind s).andThen fun s =>
    { state := s, events := pieces.map (ClaudeEvent.blockDelta s.index) }

/-- Delivers a thought and its signature, or a text that is not empty. -/
def addText (part : Json) (text : Bytes) (s : State) : Step State ClaudeEvent :=
  if part.boolField "thought" then
    addPieces .thinking (.thinking text :: ((Gemini.signature? part).map .signature).toList) s
  else if text.isEmpty then { state := s }
  else addPieces .text [.text text] s

/-- Delivers a function call; its id is made from a running number. -/
def addCall (call : Json) (s : State) : Step State ClaudeEvent :=
  (closeBlock s).andThen fun s =>
    { state := { s with index := s.index + 1, callCount := s.callCount + 1 }
      events :=
        [.blockStart s.index (.toolUse (Gemini.toolUseId s.callCount) (call.stringField "name")),
          .blockDelta s.index
            (.input (ContentBlock.inputOrEmpty ((call.field? "args").getD (.obj [])))),
          .blockStop s.index] }

/-- Takes a part in; a part with a text counts as that text, whatever else it holds. -/
def addPart (part : Json) (s : State) : Step State ClaudeEvent :=
  match (part.field? "text").bind Json.string? with
  | some text => addText part text s
  | none =>
    match part.objectField? "functionCall" with
    | some call => addCall call s
    | none => { state := s }

/-- Takes parts in turn. -/
def addParts : List Json → State → Step State ClaudeEvent
  | [], s => { state := s }
  | part :: rest, s => (addPart part s).andThen (addParts rest)

/-- The usage to report. -/
def reportedUsage (s : State) : Usage :=
  Usage.ofGemini (s.usage.getD .null)

/-- Reports the end at the first finish reason; it is a tool-use stop when any function was
    called. -/
def finish (reason : Bytes) (s : State) : Step State ClaudeEvent :=
  if reason.isEmpty || s.finished then { state := s }
  else
    (closeBlock s).andThen fun s =>
      let stop : Bytes :=
        if 0 < s.callCount then "tool_use" else StopReason.geminiToClaude reason
      { state := { s with finished := true, toolUseStop := decide (0 < s.callCount) }
        events := [.messageDelta (some stop) (some (reportedUsage s))] }

def onChunk (s : State) (chunk : Json) : Step State ClaudeEvent :=
  let s := { s with usage := (chunk.objectField? "usageMetadata").or s.usage }
  match chunk.headField? "candidates" with
  | none => { state := s }
  | some candidate =>
    let parts :=
      match candidate.objectField? "content" with
      | some content => (content.arrayField? "parts").getD []
      | none => []
    (addParts parts s).andThen (finish (candidate.stringField "finishReason"))

/-- Closes the open block, and reports the usage when there was no finish reason. -/
def onEnd (s : State) : Step State ClaudeEvent :=
  (closeBlock s).andThen fun s =>
    if s.finished || s.usage.isNone then { state := s }
    else
      { state := { s with finished := true }
        events := [.messageDelta none (some (reportedUsage s))] }

end ChatRelay.GeminiToClaude
