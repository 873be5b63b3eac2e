import ChatRelay.Stream.Event
import ChatRelay.Transcoder.ClaudeUsage
import ChatRelay.Transcoder.Step

/-!
# Streams for clients of the Responses dialect

The events of such a stream are always the same: created, any number of text deltas, done,
completed. `Writer` keeps to that order; the two transcoders of this file feed it the text and the
usage of a chat completion stream and of a Claude stream.
-/

namespace ChatRelay.ToReplies

/-! ## 1. The order of events -/

structure Writer where
  /-- The id of the reply. -/
  id : Bytes
  model : Bytes
  /-- The text delivered so far. -/
  text : Bytes := []
  /-- The usage to report. -/
  usage : Json := .null
  created : Bool := false
  finished : Bool := false

namespace Writer

/-- Announces the reply, once. -/
def ensureCreated (w : Writer) : Step Writer ReplyEvent :=
  if w.created then { state := w }
  else { state := { w with created := true }, events := [.created w.id w.model] }

/-- Delivers a piece of text. -/
def addText (piece : Bytes) (w : Writer) : Step Writer ReplyEvent :=
  if piece.isEmpty then { state := w }
  else
    (ensureCreated w).andThen fun w =>
      { state := { w with text := w.text ++ piece }, events := [.textDelta piece] }

/-- Delivers the whole text and the completed reply, once. -/
def finish (w : Writer) : Step Writer ReplyEvent :=
  if w.finished then { state := w }
  else
    (ensureCreated w).andThen fun w =>
      { state := { w with finished := true }
        events :=
          [.textDone w.text, .completed w.id w.model w.text (Usage.ofReport w.usage)] }

end Writer

/-! ## 2. From a chat completion -/

namespace OfOpenai

def component : Bytes := "openai->responses"

def onChunk (w : Writer) (chunk : Json) : Step Writer ReplyEvent :=
  let w := { w with usage := (chunk.objectField? "usage").getD w.usage }
  match (chunk.headField? "choices").bind (·.objectField? "delta") with
  | some delta => w.addText (delta.stringField "content")
  | none => { state := w }

def onEnd (w : Writer) : Step Writer ReplyEvent :=
  w.finish

end OfOpenai

/-! ## 3. From a Claude stream -/

namespace OfClaude

structure State where
  writer : Writer
  usage : ClaudeUsage.Merged := none

def component : Bytes := "claude->responses"

def onChunk (s : State) (event : Json) : Step State ReplyEvent :=
  let type := event.stringField "type"
  if type = "message_start" then
    { state := { s with usage := ClaudeUsage.merge s.usage (ClaudeUsage.ofMessageStart event) } }
  else if type = "content_block_delta" then
    let delta := (event.field? "delta").getD .null
    if delta.stringField "type" = "text_delta" then
      (s.writer.addText (delta.stringField "text")).mapState fun w => { s with writer := w }
    else { state := s }
  else if type = "message_delta" then
    { state := { s with usage := ClaudeUsage.merge s.usage (ClaudeUsage.ofMessageDelta event) } }
  else { state := s }

def onEnd (s : State) : Step State ReplyEvent :=
  let writer :=
    match s.usage with
    | some fields => { s.writer with usage := .obj fields }
    | none => s.writer
  writer.finish.mapState fun w => { s with writer := w }

end OfClaude

end ChatRelay.ToReplies
