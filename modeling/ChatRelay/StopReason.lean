import ChatRelay.Text.Bytes

/-!
# Why a reply ended

Each dialect has its own words for the end of a reply. The Gemini dialect has no word for a tool
call, so the tables do not invert each other; a word that a table does not know is an ordinary end.
-/

namespace ChatRelay.StopReason

def claudeToGemini (reason : Bytes) : Bytes :=
  if reason = "max_tokens" then "MAX_TOKENS" else "STOP"

def openaiToGemini (reason : Bytes) : Bytes :=
  if reason = "length" then "MAX_TOKENS"
  else if reason = "content_filter" then "SAFETY"
  else "STOP"

def geminiToClaude (reason : Bytes) : Bytes :=
  if reason = "MAX_TOKENS" then "max_tokens" else "end_turn"

def geminiToOpenai (reason : Bytes) : Bytes :=
  if reason = "MAX_TOKENS" then "length"
  else if reason = "SAFETY" then "content_filter"
  else "stop"

def claudeToOpenai (reason : Bytes) : Bytes :=
  if reason = "max_tokens" then "length"
  else if reason = "tool_use" then "tool_calls"
  else "stop"

/-- Tool calls count more than the word. -/
def openaiToClaude (reason : Bytes) (hasToolCalls : Bool) : Bytes :=
  if hasToolCalls then "tool_use"
  else if reason = "length" then "max_tokens"
  else "end_turn"

/-- Whether a chat completion ended to have tools called. -/
def callsTools (reason : Bytes) : Bool :=
  reason = "tool_calls" ∨ reason = "function_call"

end ChatRelay.StopReason
