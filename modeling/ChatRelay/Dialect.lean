import ChatRelay.Error

/-!
# Roles and dialects

The roles of a message and the four wire dialects, with the names they go by on the wire and in
settings. Names are read in any case of letters.
-/

namespace ChatRelay

/-- Who speaks in a message. -/
inductive Role where
  | user
  | assistant
  | system
  | tool
  deriving DecidableEq

namespace Role

def name : Role → Bytes
  | user => "user"
  | assistant => "assistant"
  | system => "system"
  | tool => "tool"

/-- The role that a text names; whoever is not known is the user. -/
def ofText (text : Bytes) : Role :=
  let t := text.lower
  if t = "assistant" ∨ t = "model" then .assistant
  else if t = "system" then .system
  else if t = "tool" then .tool
  else .user

/-- The role of a message of a chat completion. Here `model` is no name of the assistant. -/
def ofChatText (text : Bytes) : Role :=
  if text.lower = "model" then .user else ofText text

end Role

/-- A wire format that a client or a backend speaks. -/
inductive Dialect where
  | claude
  | openai
  | gemini
  | responses
  deriving DecidableEq

namespace Dialect

def name : Dialect → Bytes
  | claude => "claude"
  | openai => "openai"
  | gemini => "gemini"
  | responses => "responses"

/-- The dialect that a setting names. -/
def ofText (text : Bytes) : Except RelayError Dialect :=
  let t := text.lower
  if t = "claude" then .ok .claude
  else if t = "openai" then .ok .openai
  else if t = "gemini" then .ok .gemini
  else if t = "responses" then .ok .responses
  else .error (.misconfigured (Bytes.ofString "Unknown service type: " ++ text) "service_type")

end Dialect

end ChatRelay
