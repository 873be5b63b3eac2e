import ChatRelay.Headers

/-!
# Requests and replies

A request as it comes in from a client, the request that goes out to the backend for it, and the
backend's reply.
-/

namespace ChatRelay

/-- A request of a client. -/
structure ClientRequest where
  method : Bytes
  path : Bytes
  /-- The query, without its question mark. -/
  query : Bytes
  headers : Headers
  body : Bytes

/-- A request to a backend. -/
structure BackendRequest where
  method : Bytes
  url : Bytes
  headers : Headers
  body : Bytes
  deriving DecidableEq

/-- A reply of a backend. -/
structure BackendReply where
  status : Int
  body : Bytes

end ChatRelay
