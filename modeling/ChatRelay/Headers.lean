import ChatRelay.Url

/-!
# Request headers

Header names are compared without regard to ASCII case. The headers are kept in the order of their
names in small letters; of two settings of one name the first spelling and the last value stay
(`set`).

`forBackend` drops what concerns only the client's own connection, and the client's credentials; the
functions `authenticate…` and `asClaudeClient` add what a backend expects.
-/

namespace ChatRelay

/-- Names and values, in the order of the names in small letters. -/
abbrev Headers := List (Bytes × Bytes)

namespace Headers

def find? : Headers → Bytes → Option Bytes
  | [], _ => none
  | (n, v) :: rest, name => if n.lower = name.lower then some v else find? rest name

def contains (h : Headers) (name : Bytes) : Bool :=
  (find? h name).isSome

/-- The headers with `value` under `name`. -/
def set : Headers → Bytes → Bytes → Headers
  | [], name, value => [(name, value)]
  | (n, v) :: rest, name, value =>
    if name.lower = n.lower then (n, value) :: rest
    else if name.lower < n.lower then (name, value) :: (n, v) :: rest
    else (n, v) :: set rest name value

def erase : Headers → Bytes → Headers
  | [], _ => []
  | (n, v) :: rest, name => if n.lower = name.lower then rest else (n, v) :: erase rest name

/-- The headers of a list of settings. -/
def ofList (entries : List (Bytes × Bytes)) : Headers :=
  entries.foldl (fun h e => set h e.1 e.2) []

/-! ## 1. What goes on to the backend -/

/-- Headers of the client's own connection, its credentials and its forwarding marks. -/
def dropped : List Bytes :=
  ["Connection", "Keep-Alive", "Proxy-Authenticate", "Proxy-Authorization", "Proxy-Connection",
    "TE", "Trailer", "Transfer-Encoding", "Upgrade", "Host", "Content-Length", "Accept-Encoding",
    "Authorization", "x-api-key", "x-goog-api-key", "X-Forwarded-For", "X-Forwarded-Host",
    "X-Forwarded-Proto", "X-Real-IP", "Forwarded"]

def isDropped (name : Bytes) : Bool :=
  dropped.any fun d => d.lower = name.lower

/-- The client's headers as they go on to the backend at `host`. -/
def forBackend (inbound : Headers) (host : Bytes) : Headers :=
  let kept := inbound.filter fun e => !isDropped e.1
  let kept := if host.isEmpty then kept else set kept "Host" host
  if contains kept "Content-Type" then kept else set kept "Content-Type" "application/json"

/-! ## 2. What the backend expects -/

/-- The key in the header that its form calls for. -/
def authenticate (h : Headers) (apiKey : Bytes) : Headers :=
  let h := erase (erase h "Authorization") "x-api-key"
  if apiKey.startsWith "sk-ant-" then set h "x-api-key" apiKey
  else set h "Authorization" (Bytes.ofString "Bearer " ++ apiKey)

/-- The key as a Gemini backend takes it. -/
def authenticateGemini (h : Headers) (apiKey : Bytes) : Headers :=
  set (erase (erase h "Authorization") "x-api-key") "x-goog-api-key" apiKey

/-- The version of the Claude interface that requests name. -/
def claudeVersion : Bytes := "2023-06-01"

/-- A user agent that a Claude backend accepts, and the interface version. -/
def asClaudeClient (h : Headers) (userAgent : Bytes) : Headers :=
  let h :=
    match find? h "User-Agent" with
    | some agent => if agent.startsWith "claude-cli" then h else set h "User-Agent" userAgent
    | none => set h "User-Agent" userAgent
  if contains h "anthropic-version" then h else set h "anthropic-version" claudeVersion

/-- The headers as a backend of the named kind expects them from its clients; only a Claude backend
    expects anything. -/
def asClientOf (h : Headers) (kind userAgent : Bytes) : Headers :=
  if kind = "claude" then asClaudeClient h userAgent else h

end Headers

end ChatRelay
