import ChatRelay.Error

/-!
# Routes of the Gemini dialect

A Gemini request names its model, and says whether it wants a stream, in its path: `endpoint` writes
the path and `ofPath` reads it.
-/

namespace ChatRelay.Gemini

structure Route where
  model : Bytes
  stream : Bool
  deriving DecidableEq

namespace Route

/-- The path of a route, below the base URL. -/
def endpoint (r : Route) : Bytes :=
  Bytes.ofString "/models/" ++ r.model ++
    Bytes.ofString (if r.stream then ":streamGenerateContent" else ":generateContent")

/-- The query of a route. -/
def query (r : Route) : Bytes :=
  if r.stream then "alt=sse" else []

/-- The part of a path that names model and method: what follows `/models/`, or else the last
    segment. -/
def segment (path : Bytes) : Bytes :=
  (Bytes.afterFirst? "/models/" path).getD (Bytes.afterLast 0x2F path)

/-- The route of a path and a query, which must name a model. -/
def ofPath (path query : Bytes) : Except RelayError Route :=
  let (model, method) := (Bytes.cut? 0x3A (segment path)).getD (segment path, [])
  if model.isEmpty then
    .error (.invalid "Model name is required in the request path" "model" path)
  else
    .ok { model, stream := method == Bytes.ofString "streamGenerateContent" ||
            query.contains "alt=sse" }

end Route

end ChatRelay.Gemini
