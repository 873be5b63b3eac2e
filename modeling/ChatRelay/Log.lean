import ChatRelay.Text.Bytes

/-!
# Log entries

Operations return the entries they write; which of them a reader sees is decided afterwards, by the
threshold (`LogLevel.admits`). An entry is shown as one text (`LogEntry.render`), which is one line
unless its component or its message holds line feeds (`LogEntry.lines`).
-/

namespace ChatRelay

/-- The severity of an entry, or the threshold of a reader. -/
inductive LogLevel where
  | none
  | error
  | warning
  | info
  | debug
  | all
  deriving DecidableEq

namespace LogLevel

/-- The level that a setting names, in any case of letters; an unknown name turns the log off. -/
def ofText (text : Bytes) : LogLevel :=
  let t := text.lower
  if t = "error" then .error
  else if t = "warning" ∨ t = "warn" then .warning
  else if t = "info" then .info
  else if t = "debug" then .debug
  else if t = "all" then .all
  else .none

/-- The setting that names the level. -/
def name : LogLevel → Bytes
  | none => "none"
  | error => "error"
  | warning => "warning"
  | info => "info"
  | debug => "debug"
  | all => "all"

/-- The tag of a line. -/
def tag : LogLevel → Bytes
  | error => "ERROR"
  | warning => "WARN"
  | info => "INFO"
  | debug => "DEBUG"
  | none | all => "TRACE"

/-- Higher ranks are chattier. -/
def rank : LogLevel → Nat
  | none => 0
  | error => 1
  | warning => 2
  | info => 3
  | debug => 4
  | all => 5

/-- Whether a threshold lets a level through. Nothing passes the threshold `none`, and an entry of
    level `none` passes nowhere. -/
def admits (threshold level : LogLevel) : Bool :=
  threshold != .none && level != .none && level.rank ≤ threshold.rank

end LogLevel

/-- One entry of the log. -/
structure LogEntry where
  level : LogLevel
  component : Bytes
  message : Bytes
  deriving DecidableEq

namespace LogEntry

def debug (component message : Bytes) : LogEntry := ⟨.debug, component, message⟩

def warning (component message : Bytes) : LogEntry := ⟨.warning, component, message⟩

def info (component message : Bytes) : LogEntry := ⟨.info, component, message⟩

/-- The text of an entry, without its time. -/
def render (e : LogEntry) : Bytes :=
  Bytes.ofString "[llmrelay][" ++ e.level.tag ++ Bytes.ofString "][" ++ e.component ++
    Bytes.ofString "] " ++ e.message

/-- The lines of an entry. -/
def lines (e : LogEntry) : List Bytes :=
  Bytes.splitAtByte 0x0A e.render

/-- The lines that a reader with this threshold sees. -/
def visible (threshold : LogLevel) (entries : List LogEntry) : List Bytes :=
  (entries.filter fun e => threshold.admits e.level).flatMap lines

end LogEntry

end ChatRelay
