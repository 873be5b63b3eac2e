import ChatRelay.Json.Reader
import ChatRelay.Log
import ChatRelay.Stream.Sse

/-!
# Steps of a transcoder

A transcoder is a state that takes the lines of one stream and brings events of another. This file
holds what all of them share: the outcome of a step (`Step`), the chunk of a line (`Chunk.ofLine`)
and the tool calls that arrive in pieces (`PendingCall`).
-/

namespace ChatRelay

/-- The state after a step, and the events and log entries that the step brought, in order. -/
structure Step (σ ε : Type) where
  state : σ
  events : List ε := []
  log : List LogEntry := []

namespace Step

variable {σ τ ε : Type}

/-- One step and then another. -/
def andThen (first : Step σ ε) (next : σ → Step τ ε) : Step τ ε :=
  let second := next first.state
  ⟨second.state, first.events ++ second.events, first.log ++ second.log⟩

/-- The same step of a state that is part of another. -/
def mapState (f : σ → τ) (s : Step σ ε) : Step τ ε :=
  ⟨f s.state, s.events, s.log⟩

@[simp] theorem events_andThen (first : Step σ ε) (next : σ → Step τ ε) :
    (first.andThen next).events = first.events ++ (next first.state).events := rfl

@[simp] theorem state_andThen (first : Step σ ε) (next : σ → Step τ ε) :
    (first.andThen next).state = (next first.state).state := rfl

end Step

/-! ## 1. Chunks -/

/-- What a line brings. -/
inductive Chunk where
  /-- Nothing: another line than a data line, or the mark of the end. -/
  | none
  /-- A payload that is no JSON object. -/
  | unreadable (size : Nat)
  /-- An object. -/
  | data (object : Json)
  /-- An object that reports an error. -/
  | error (report : Json)

/-- The chunk of a line, which may have blanks around it. -/
def Chunk.ofLine (line : Bytes) : Chunk :=
  match Sse.payload? line.trim with
  | Option.none => .none
  | some payload =>
    if payload = "[DONE]" then .none
    else
      match (Json.parse? payload).bind Json.object? with
      | Option.none => .unreadable payload.length
      | some object =>
        match object.field? "error" with
        | Option.none | some .null => .data object
        | some report => .error report

/-- A step on a line, given the step on an object. A reported error fails, and changes nothing; a
    payload that cannot be read is skipped. -/
def Step.onLine {σ ε : Type} (component : Bytes) (onChunk : σ → Json → Step σ ε) (s : σ)
    (line : Bytes) : Except RelayError (Step σ ε) :=
  match Chunk.ofLine line with
  | .none => .ok { state := s }
  | .unreadable size =>
    .ok { state := s
          log := [.debug component (Bytes.ofString "skipping unparsable chunk of " ++
            Bytes.ofNat size ++ Bytes.ofString " bytes")] }
  | .data object => .ok (onChunk s object)
  | .error report => do
    let text ← report.dump
    .error (.reported text)

/-! ## 2. Tool calls in pieces -/

/-- What has come of a tool call so far. -/
structure PendingCall where
  id : Bytes := []
  name : Bytes := []
  /-- The pieces of the arguments, joined. -/
  arguments : Bytes := []
  deriving DecidableEq, Inhabited

namespace PendingCall

/-- The call with one more piece: an id or a name replaces the one before unless it is empty, and
    arguments are appended. -/
def add (c : PendingCall) (piece : Json) : PendingCall :=
  let id := piece.stringField "id"
  let function := (piece.field? "function").getD .null
  let name := function.stringField "name"
  { id := if id.isEmpty then c.id else id
    name := if name.isEmpty then c.name else name
    arguments := c.arguments ++ function.stringField "arguments" }

/-- The arguments of a complete call: it has an id, a name and arguments that are JSON. -/
def complete? (c : PendingCall) : Option Json :=
  if c.id.isEmpty || c.name.isEmpty || c.arguments.isEmpty then none
  else Json.parse? c.arguments

/-- The calls with one more piece, which names its call by index; a piece without index belongs to
    the call 0. -/
def addPiece (calls : Table Int PendingCall) (piece : Json) : Table Int PendingCall :=
  if piece.isObject then
    let index := Word.toInt32 ((piece.intField? "index").getD 0)
    Table.insert calls index (((Table.find? calls index).getD {}).add piece)
  else calls

/-- The calls with all the pieces of a chunk. -/
def addPieces (calls : Table Int PendingCall) (pieces : List Json) : Table Int PendingCall :=
  pieces.foldl addPiece calls

/-- The complete calls in the order of their indices, each with its arguments. -/
def completed (calls : Table Int PendingCall) : List (PendingCall × Json) :=
  calls.filterMap fun e => e.2.complete?.map (e.2, ·)

/-- The calls that are not complete. -/
def incomplete (calls : Table Int PendingCall) : Table Int PendingCall :=
  calls.filter fun e => e.2.complete?.isNone

/-- What the log says of calls that never became complete. -/
def droppedEntries (component : Bytes) (calls : Table Int PendingCall) : List LogEntry :=
  if calls.isEmpty then []
  else
    [.debug component (Bytes.ofString "dropping " ++ Bytes.ofNat calls.length ++
      Bytes.ofString " incomplete tool calls")]

end PendingCall

end ChatRelay
