import ChatRelay.Stream.LineReader
import ChatRelay.Transcoder.Basic

/-!
# Plans of a producer

The producer of a stream reads lines from a body, hands them to a transcoder, and delivers what the
transcoder brings. A `Plan` is all that it will do, one act after another. Only three acts depend on
what the consumer does meanwhile, and such an act holds a plan for either case: a delivery is
refused and a test answers otherwise once the channel is closed, and a read fails once the body is
closed.

* `ofBody` is the plan for a body, a transcoder and a line reader;
* `ending` is what comes after the last line: the transcoder's end, then the verdict on a failure.

A failed read is no error when the consumer caused it, and none when the client left after it had
been told to call tools (`verdict`).
-/

namespace ChatRelay

inductive Plan where
  /-- Closes the channel of events; nothing follows. -/
  | done
  /-- Writes an entry to the log. -/
  | note (entry : LogEntry) (next : Plan)
  /-- Delivers an event. -/
  | push (event : Bytes) (refused next : Plan)
  /-- Reads from the body; `next` knows what an open body brings. -/
  | read (closed next : Plan)
  /-- Asks whether the channel of events is closed. -/
  | test (closed next : Plan)
  /-- Sets the error that the stream ends with. -/
  | publish (error : RelayError) (next : Plan)

namespace Plan

/-! ## 1. Pieces of a plan -/

/-- The name under which streams write to the log. -/
def component : Bytes := "stream"

/-- A text about a number of lines. -/
def aboutLines (before : Bytes) (lines : Nat) : Bytes :=
  before ++ Bytes.ofString " after " ++ Bytes.ofNat lines ++ Bytes.ofString " lines"

/-- Notes entries in turn. -/
def notes (entries : List LogEntry) (next : Plan) : Plan :=
  entries.foldr note next

/-- What is left to do when an event is refused. -/
def refused (lines : Nat) : Plan :=
  note (.debug component (aboutLines "stream cancelled by consumer" lines)) done

/-- Delivers events in turn. -/
def pushes (events : List Bytes) (lines : Nat) (next : Plan) : Plan :=
  events.foldr (fun event rest => push event (refused lines) rest) next

/-- Delivers what a step of the transcoder brought. -/
def ofStep (step : Step Transcoder Bytes) (lines : Nat) (next : Plan) : Plan :=
  pushes step.events lines (notes step.log next)

/-- Ends the stream with an error. -/
def fail (error : RelayError) : Plan :=
  note (.warning component (Bytes.ofString "stream terminated: " ++ error.message))
    (publish error done)

/-- What a failed read comes to, once the transcoder has come to its end. -/
def verdict (transcoder : Transcoder) (lines : Nat) (failure : Disconnect) : Plan :=
  test (note (.debug component (aboutLines "body closed by consumer" lines)) done)
    (if transcoder.toolUseStop && failure.byClient then
      note (.debug component "client disconnected after tool_use stop, ending quietly") done
    else
      note (.warning component
          (aboutLines "upstream read failed" lines ++ Bytes.ofString ": " ++ failure.shown))
        (publish (.disconnected failure) done))

/-- What follows the last line; `failure` is the failed read that made it the last. -/
def ending (transcoder : Transcoder) (lines : Nat) (failure : Option Disconnect) : Plan :=
  match transcoder.onEnd with
  | .error e => fail e
  | .ok step =>
    ofStep step lines
      (match failure with
        | none => done
        | some d => verdict step.state lines d)

/-- What follows the last read, given what is left in the line reader: a tail without a line feed is
    one more line. -/
def ofTail (outcome : LineReader.Outcome) (transcoder : Transcoder) (lines : Nat) : Plan :=
  match outcome with
  | .error d => ending transcoder lines (some d)
  | .ok none => ending transcoder lines none
  | .ok (some line) =>
    match transcoder.onLine line with
    | .error e => fail e
    | .ok step => ofStep step (lines + 1) (ending step.state (lines + 1) none)

/-! ## 2. The plan of a stream -/

/-- The plan for what is still to come, after a number of lines. -/
def ofBody (reader : LineReader) (body : Body) (transcoder : Transcoder) (lines : Nat) : Plan :=
  match _h : reader.scan with
  | .line line reader =>
    match transcoder.onLine line with
    | .error e => fail e
    | .ok step => ofStep step (lines + 1) (ofBody reader body step.state (lines + 1))
  | .overLimit _ => ending transcoder lines (some LineReader.tooLong)
  | .hungry reader =>
    read (ending transcoder lines (some Body.closedFailure))
      (match _hb : body.read with
        | (.bytes (x :: xs), body) => ofBody (reader.fill (.bytes (x :: xs))) body transcoder lines
        | (outcome, _) => ofTail (reader.fill outcome).finish.1 transcoder lines)
termination_by (body.rest.length, reader.buffer.length - reader.scanFrom)
decreasing_by
  · exact Prod.Lex.right _ (LineReader.scan_line_lt _h)
  · exact Prod.Lex.left _ _ (Body.rest_lt_of_read _hb)

end Plan

end ChatRelay
