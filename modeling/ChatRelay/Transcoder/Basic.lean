import ChatRelay.Transcoder.ClaudeToGemini
import ChatRelay.Transcoder.GeminiToClaude
import ChatRelay.Transcoder.OpenAIToClaude
import ChatRelay.Transcoder.OpenAIToGemini
import ChatRelay.Transcoder.Passthrough
import ChatRelay.Transcoder.ToReplies

/-!
# Transcoders

One transcoder for each pairing of a backend's stream with a client's dialect, behind one interface:
`onLine` takes a line of the backend's stream, `onEnd` its end, and both bring events as they go
over the wire. A step fails as a whole: when it does, it has brought nothing and changed nothing.
-/

namespace ChatRelay

/-- A transcoder in its current state. -/
inductive Transcoder where
  | passthrough (s : Passthrough.State)
  | openaiToClaude (s : OpenAIToClaude.State)
  | geminiToClaude (s : GeminiToClaude.State)
  | openaiToGemini (s : OpenAIToGemini.State)
  | claudeToGemini (s : ClaudeToGemini.State)
  | openaiToReplies (w : ToReplies.Writer)
  | claudeToReplies (s : ToReplies.OfClaude.State)

namespace Transcoder

/-- A step whose events are written out, for the state in its place. -/
def write {σ ε : Type} (render : ε → Except RelayError Bytes) (wrap : σ → Transcoder)
    (step : Step σ ε) : Except RelayError (Step Transcoder Bytes) := do
  let events ← step.events.mapM render
  .ok ⟨wrap step.state, events, step.log⟩

/-- The step on one line, without its line feed. -/
def onLine (t : Transcoder) (line : Bytes) : Except RelayError (Step Transcoder Bytes) :=
  match t with
  | passthrough s => .ok ((Passthrough.onLine s line).mapState passthrough)
  | openaiToClaude s => do
    let step ← Step.onLine OpenAIToClaude.component OpenAIToClaude.onChunk s line
    write ClaudeEvent.render openaiToClaude step
  | geminiToClaude s => do
    let step ← Step.onLine GeminiToClaude.component GeminiToClaude.onChunk s line
    write ClaudeEvent.render geminiToClaude step
  | openaiToGemini s => do
    let step ← Step.onLine OpenAIToGemini.component OpenAIToGemini.onChunk s line
    write GeminiChunk.render openaiToGemini step
  | claudeToGemini s => do
    let step ← Step.onLine ClaudeToGemini.component ClaudeToGemini.onChunk s line
    write GeminiChunk.render claudeToGemini step
  | openaiToReplies w => do
    let step ← Step.onLine ToReplies.OfOpenai.component ToReplies.OfOpenai.onChunk w line
    write ReplyEvent.render openaiToReplies step
  | claudeToReplies s => do
    let step ← Step.onLine ToReplies.OfClaude.component ToReplies.OfClaude.onChunk s line
    write ReplyEvent.render claudeToReplies step

/-- The step at the end of the stream, whether it ended well or failed. -/
def onEnd : Transcoder → Except RelayError (Step Transcoder Bytes)
  | passthrough s => .ok ((Passthrough.onEnd s).mapState passthrough)
  | openaiToClaude s => write ClaudeEvent.render openaiToClaude (OpenAIToClaude.onEnd s)
  | geminiToClaude s => write ClaudeEvent.render geminiToClaude (GeminiToClaude.onEnd s)
  | openaiToGemini s => write GeminiChunk.render openaiToGemini (OpenAIToGemini.onEnd s)
  | claudeToGemini s => write GeminiChunk.render claudeToGemini (ClaudeToGemini.onEnd s)
  | openaiToReplies w => write ReplyEvent.render openaiToReplies (ToReplies.OfOpenai.onEnd w)
  | claudeToReplies s => write ReplyEvent.render claudeToReplies (ToReplies.OfClaude.onEnd s)

/-- Whether the client has been told to call tools. -/
def toolUseStop : Transcoder → Bool
  | passthrough s => s.toolUseStop
  | openaiToClaude s => s.toolUseStop
  | geminiToClaude s => s.toolUseStop
  | openaiToGemini s => s.toolUseStop
  | claudeToGemini s => s.toolUseStop
  | openaiToReplies _ => false
  | claudeToReplies _ => false

end Transcoder

end ChatRelay
