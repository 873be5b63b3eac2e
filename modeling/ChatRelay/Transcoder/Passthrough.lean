import ChatRelay.Transcoder.Step

/-!
# Passing a stream through

The client speaks the backend's dialect, so each event goes on as it came: its lines are held back
until a blank line closes it. Whether a tool-use stop went by is seen by its text alone.
-/

namespace ChatRelay.Passthrough

structure State where
  /-- The lines of the event so far, each with its line feed. -/
  held : Bytes := []
  /-- Whether a tool-use stop has gone by. -/
  toolUseStop : Bool := false

/-- Whether a line reports a tool-use stop. -/
def marksToolUseStop (line : Bytes) : Bool :=
  line.contains "\"stop_reason\":\"tool_use\"" || line.contains "\"stop_reason\": \"tool_use\""

/-- Delivers what is held, closed by a blank line. -/
def flush (s : State) : Step State Bytes :=
  if s.held.isEmpty then { state := s }
  else { state := { s with held := [] }, events := [s.held ++ [0x0A]] }

def onLine (s : State) (line : Bytes) : Step State Bytes :=
  if line.isEmpty then flush s
  else
    { state :=
        { held := s.held ++ line ++ [0x0A]
          toolUseStop := s.toolUseStop || marksToolUseStop line } }

def onEnd (s : State) : Step State Bytes :=
  flush s

end ChatRelay.Passthrough
