import ChatRelay.Number.Binary64
import ChatRelay.Text.Bytes

/-!
# Errors

The causes for which an operation of the relay fails. `message` is the text shown to a person and
`code` the stable name shown to a program. A message ends at the first NUL byte of its
wording.

A read that fails (`Disconnect`) counts as the client's own doing when the peer is known to be gone
or the message says so.
-/

namespace ChatRelay

/-! ## 1. Lost connections -/

/-- A read or write that failed. -/
structure Disconnect where
  message : Bytes
  /-- Whether the peer is known to have closed. -/
  peerClosed : Bool := false
  deriving DecidableEq

namespace Disconnect

/-- The wordings of a peer that went away, in small letters. -/
def markers : List Bytes :=
  ["broken pipe", "connection reset", "eof",
    "transfer closed with outstanding read data", "transferred a partial file",
    "failure when receiving data from the peer", "failed sending data to the peer",
    "empty reply from server"]

/-- Whether a message describes a peer that went away, in any case of letters. -/
def isMarked (message : Bytes) : Bool :=
  markers.any message.lower.contains

/-- The message as it is shown. -/
def shown (d : Disconnect) : Bytes :=
  d.message.beforeNul

/-- Whether the failure is the client's disconnect. -/
def byClient (d : Disconnect) : Bool :=
  d.peerClosed || isMarked d.shown

end Disconnect

/-! ## 2. Causes -/

inductive RelayError where
  /-- A body that cannot be read; `context` says which. -/
  | undecodable (message context : Bytes)
  /-- A conversation item of a type that no conversion knows. -/
  | unknownItem (itemType : Bytes)
  /-- An explicit error object in a stream chunk, as its JSON text. -/
  | reported (errorJson : Bytes)
  /-- A connection that was lost. -/
  | disconnected (d : Disconnect)
  /-- A connection that could not be made. -/
  | unreachable (message endpoint : Bytes)
  /-- A reply with a status outside 200 to 299. -/
  | badStatus (message : Bytes) (status : Int) (body endpoint : Bytes)
  /-- A request with a value that is not allowed. -/
  | invalid (message field value : Bytes)
  /-- A setting that is missing or wrong. -/
  | misconfigured (message key : Bytes)
  /-- The consumer stopped the operation. -/
  | cancelled
  /-- The operation took too long. -/
  | timedOut (seconds : Option Binary64)
  /-- Any other failure. -/
  | other (message code : Bytes)
  /-- A JSON value of another type than the operation needs, or a string that is not UTF-8 where
      JSON text is written. -/
  | wrongJsonType
  /-- A JSON number that no double can hold. -/
  | numberOutOfRange
  deriving DecidableEq

namespace RelayError

/-- The whole wording of a cause. -/
def wording : RelayError → Bytes
  | undecodable m _ => m
  | unknownItem t => Bytes.ofString "Unrecognized item type: " ++ t
  | reported e => Bytes.ofString "upstream error: " ++ e
  | disconnected d => d.message
  | unreachable m _ => m
  | badStatus m _ _ _ => m
  | invalid m _ _ => m
  | misconfigured m _ => m
  | cancelled => "Operation cancelled"
  | timedOut _ => "Operation timed out"
  | other m _ => m
  | wrongJsonType => "wrong JSON type"
  | numberOutOfRange => "JSON number out of range"

/-- The text shown to a person. -/
def message (e : RelayError) : Bytes :=
  e.wording.beforeNul

/-- The stable name shown to a program. -/
def code : RelayError → Bytes
  | undecodable _ _ => "DECODE_ERROR"
  | unknownItem _ => "UNRECOGNIZED_FORMAT"
  | reported _ => "UPSTREAM_PROTOCOL_ERROR"
  | disconnected _ => "TRANSPORT_DISCONNECT"
  | unreachable _ _ => "CONNECTION_ERROR"
  | badStatus _ _ _ _ => "API_ERROR"
  | invalid _ _ _ => "VALIDATION_ERROR"
  | misconfigured _ _ => "CONFIGURATION_ERROR"
  | cancelled => "CANCELLATION_ERROR"
  | timedOut _ => "TIMEOUT_ERROR"
  | other _ c => c
  | wrongJsonType => "JSON_TYPE_ERROR"
  | numberOutOfRange => "JSON_OUT_OF_RANGE"

end RelayError

end ChatRelay
