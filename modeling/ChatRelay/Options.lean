import ChatRelay.Error
import ChatRelay.Log
import ChatRelay.Number.Word
import ChatRelay.Table

/-!
# Options

The settings of a relay, and how they are read from the environment and from a settings file of
lines `KEY=value`. A variable of the environment counts before the same key of the file; numbers
must be positive (`positive?`).
-/

namespace ChatRelay

structure Options where
  logLevel : LogLevel
  /-- Seconds that a request may take. -/
  timeout : Binary64
  /-- Events that may wait for the consumer of a stream. -/
  eventCapacity : Nat
  /-- The longest line that a stream may have. -/
  maxLineBytes : Nat
  /-- Completion tokens asked for when the client names no limit; a 32-bit word. -/
  defaultMaxTokens : Int
  /-- The user agent shown to a Claude backend. -/
  claudeUserAgent : Bytes

namespace Options

/-- The settings of a relay that nobody configured. -/
def default : Options where
  logLevel := .warning
  timeout := Binary64.ofInt 720
  eventCapacity := 100
  maxLineBytes := 1024 * 1024
  defaultMaxTokens := 65535
  claudeUserAgent := "claude-cli/1.0.0 (external, cli)"

instance : Inhabited Options := ⟨default⟩

/-! ## 1. The settings file -/

/-- Where the settings file is: the given path, or the standard one below the home directory. -/
def settingsPath (home : Bytes) (custom : Option Bytes) : Bytes :=
  match custom with
  | some path => path
  | none => if home.isEmpty then [] else home ++ Bytes.ofString "/.llmrelay/.env"

def isQuote (b : UInt8) : Bool :=
  b == 0x22 || b == 0x27

/-- The value without a quote at its beginning and without one at its end, of either kind. -/
def unquote (value : Bytes) : Bytes :=
  let v := if (value.head?.any isQuote) then value.tail else value
  if v.getLast?.any isQuote then v.dropLast else v

/-- The key and value of a line; `none` for a blank line, a comment and a line without `=`. -/
def settingOfLine (line : Bytes) : Option (Bytes × Bytes) :=
  let line := line.trim
  if line.head? = some 0x23 then none
  else
    let line := if line.startsWith "export " then Bytes.trim (line.drop 7) else line
    (Bytes.cut? 0x3D line).map fun p => (p.1.trim, unquote p.2.trim)

/-- The settings of a file; of two lines with one key the later counts. -/
def readSettings (content : Bytes) : Table Bytes Bytes :=
  Table.ofList ((Bytes.splitAtByte 0x0A content).filterMap settingOfLine)

/-! ## 2. Numbers -/

/-- Blanks that may stand before a number. -/
def isSpace (b : UInt8) : Bool :=
  b == 0x20 || (0x09 ≤ b && b ≤ 0x0D)

/-- The integer that a text denotes as a whole: blanks, a sign, digits. -/
def integer? (text : Bytes) : Option Int :=
  let text := text.dropWhile isSpace
  if text.head? = some 0x2D then (Bytes.numeral? text.tail).map fun (n : Nat) => -(n : Int)
  else
    let digits := if text.head? = some 0x2B then text.tail else text
    (Bytes.numeral? digits).map fun (n : Nat) => (n : Int)

/-- The positive 64-bit number that the setting `key` gives. -/
def positive? (key text : Bytes) : Except RelayError Int :=
  match (integer? text).filter fun n => 0 < n && n < 0x8000000000000000 with
  | some n => .ok n
  | none => .error (.misconfigured (Bytes.ofString "Expected a positive integer for " ++ key) key)

/-! ## 3. Loading -/

/-- The value of a setting: from the environment, else from the file. -/
def lookUp (env settings : Table Bytes Bytes) (key : Bytes) : Option Bytes :=
  (Table.find? env key).or (Table.find? settings key)

/-- The number of a setting, if one is given. -/
def number (env settings : Table Bytes Bytes) (key : Bytes) : Except RelayError (Option Int) :=
  match lookUp env settings key with
  | some text => (positive? key text).map some
  | none => .ok none

/-- The options with these numbers; the default for every setting that neither the environment nor
    the settings file has. -/
def ofNumbers (env settings : Table Bytes Bytes)
    (timeout eventCapacity maxLineBytes defaultMaxTokens : Option Int) : Options where
  logLevel := ((lookUp env settings "LLMRELAY_LOG_LEVEL").map LogLevel.ofText).getD default.logLevel
  timeout := (timeout.map Binary64.ofInt).getD default.timeout
  eventCapacity := (eventCapacity.map Int.toNat).getD default.eventCapacity
  maxLineBytes := (maxLineBytes.map Int.toNat).getD default.maxLineBytes
  defaultMaxTokens := (defaultMaxTokens.map Word.toInt32).getD default.defaultMaxTokens
  claudeUserAgent := (lookUp env settings "LLMRELAY_CLAUDE_USER_AGENT").getD default.claudeUserAgent

/-- The options that the environment and the settings file give. -/
def load (env settings : Table Bytes Bytes) : Except RelayError Options := do
  let timeout ← number env settings "LLMRELAY_TIMEOUT"
  let eventCapacity ← number env settings "LLMRELAY_EVENT_BUFFER"
  let maxLineBytes ← number env settings "LLMRELAY_MAX_LINE_BYTES"
  let defaultMaxTokens ← number env settings "LLMRELAY_DEFAULT_MAX_TOKENS"
  .ok (ofNumbers env settings timeout eventCapacity maxLineBytes defaultMaxTokens)

end Options

end ChatRelay
