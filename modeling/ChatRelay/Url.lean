import ChatRelay.Text.Bytes

/-!
# URLs of a backend

* `host` and `withoutQuery` take a URL apart;
* `target` puts the URL of a request together. It inserts the version segment `/v1` unless the base
  ends in a version of its own (`endsInVersion`) or in the mark `#`, which says that the base is to
  be used as it is.
-/

namespace ChatRelay.Url

/-- The authority of a URL, without scheme, user, path and query. -/
def host (url : Bytes) : Bytes :=
  let rest := (Bytes.afterFirst? "://" url).getD url
  let authority := rest.takeWhile fun b => b != 0x2F && b != 0x3F && b != 0x23
  Bytes.afterLast 0x40 authority

/-- The URL up to its query, which may hold secrets. -/
def withoutQuery (url : Bytes) : Bytes :=
  url.takeWhile (· != 0x3F)

/-- The text without one closing slash. -/
def dropSlash (s : Bytes) : Bytes :=
  if s.getLast? = some 0x2F then s.dropLast else s

def isSmallLetter (b : UInt8) : Bool :=
  0x61 ≤ b && b ≤ 0x7A

/-- Whether the text ends in `/v`, one or more digits, and any number of small letters. -/
def endsInVersion (s : Bytes) : Bool :=
  let rest := s.reverse.dropWhile isSmallLetter
  !(rest.takeWhile Bytes.isDigit).isEmpty &&
    (Bytes.ofString "v/").isPrefixOf (rest.dropWhile Bytes.isDigit)

/-- What a configured base says: the base proper, and whether the version is to be left out. -/
def readBase (base : Bytes) : Bytes × Bool :=
  let b := dropSlash base
  if b.getLast? = some 0x23 then (dropSlash b.dropLast, true) else (b, false)

/-- The URL of an endpoint below a configured base. -/
def target (base endpoint query : Bytes) : Bytes :=
  let (b, asIs) := readBase base
  let version : Bytes := if asIs || endsInVersion b then [] else "/v1"
  let tail : Bytes := if query.isEmpty then [] else 0x3F :: query
  b ++ version ++ endpoint ++ tail

/-- The endpoint of a Claude request path: the path without its leading `/v1`. -/
def claudeEndpoint (path : Bytes) : Bytes :=
  if path = [] ∨ path = "/v1" then "/messages"
  else if path.startsWith "/v1/" then path.drop 3
  else path

end ChatRelay.Url
