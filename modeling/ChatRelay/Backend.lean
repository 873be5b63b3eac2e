import ChatRelay.Dialect
import ChatRelay.Json.Reader

/-!
# Backends

A backend is a service that requests are forwarded to. It is configured by a JSON object (`ofJson`,
`toJson`), has a base URL (`effectiveBaseUrl`) and may rename the models that clients ask for
(`redirect`).
-/

namespace ChatRelay

structure Backend where
  name : Bytes
  dialect : Dialect
  baseUrl : Bytes
  /-- Further base URLs; the first counts when `baseUrl` is empty. -/
  baseUrls : List Bytes
  apiKeys : List Bytes
  /-- The backend's name for each model name. -/
  models : Table Bytes Bytes
  deriving DecidableEq

namespace Backend

/-- The base URL in use; empty without one. -/
def effectiveBaseUrl (b : Backend) : Bytes :=
  if b.baseUrl.isEmpty then b.baseUrls.headD [] else b.baseUrl

/-! ## 1. Configuration -/

/-- The string under a key, or the fallback; fails on a value of another type. -/
def textSetting (j : Json) (key fallback : Bytes) : Except RelayError Bytes :=
  match j.field? key with
  | none => .ok fallback
  | some (.str s) => .ok s
  | some _ => .error .wrongJsonType

/-- The bytes of a string; fails on a value of another type. -/
def text (j : Json) : Except RelayError Bytes :=
  match j with
  | .str s => .ok s
  | _ => .error .wrongJsonType

/-- The strings under a key, none when it is missing; fails on anything but an array of strings. -/
def textsSetting (j : Json) (key : Bytes) : Except RelayError (List Bytes) :=
  match j.field? key with
  | none => .ok []
  | some (.arr items) => items.mapM text
  | some _ => .error .wrongJsonType

/-- The object of strings under a key, empty when it is missing; fails on anything else. -/
def tableSetting (j : Json) (key : Bytes) : Except RelayError (Table Bytes Bytes) :=
  match j.field? key with
  | none => .ok []
  | some (.obj fields) => fields.mapM fun e => (text e.2).map (e.1, ·)
  | some _ => .error .wrongJsonType

/-- The backend that a configuration object describes. It must have a base URL. -/
def ofJson (j : Json) : Except RelayError Backend :=
  if j.isObject then do
    let name ← textSetting j "name" []
    let dialect ← Dialect.ofText (← textSetting j "serviceType" "claude")
    let baseUrl ← textSetting j "baseUrl" []
    let baseUrls ← textsSetting j "baseUrls"
    let apiKeys ← textsSetting j "apiKeys"
    let models ← tableSetting j "modelMapping"
    let backend : Backend := { name, dialect, baseUrl, baseUrls, apiKeys, models }
    if backend.effectiveBaseUrl.isEmpty then
      .error (.misconfigured
        (Bytes.ofString "Upstream '" ++ name ++ Bytes.ofString "' has no base URL") "baseUrl")
    else .ok backend
  else .error (.misconfigured "Upstream entry must be an object" [])

/-- The configuration object of a backend; empty further URLs and mappings are left out. -/
def toJson (b : Backend) : Json :=
  .objectWith
    [("name", .str b.name), ("serviceType", .str b.dialect.name), ("baseUrl", .str b.baseUrl),
      ("apiKeys", .strings b.apiKeys)]
    [("baseUrls", if b.baseUrls.isEmpty then none else some (.strings b.baseUrls)),
      ("modelMapping",
        if b.models.isEmpty then none
        else some (.object (b.models.map fun e => (e.1, .str e.2))))]

/-- The backends of a configuration file; `none` is a file that cannot be opened, and `path` names
    the file in the errors. -/
def load (path : Bytes) (content : Option Bytes) : Except RelayError (List Backend) :=
  match content with
  | none => .error (.misconfigured (Bytes.ofString "Cannot open upstream config: " ++ path) [])
  | some text =>
    match (Json.parse? text).bind Json.object? with
    | some config =>
      ((config.field? "upstreams").getD (.arr [])).walk.mapM ofJson
    | none =>
      .error (.misconfigured
        (Bytes.ofString "Upstream config is not a JSON object: " ++ path) [])

/-! ## 2. Model names -/

/-- The mapping's sources and targets, longer sources first; sources of one length stay in byte
    order. -/
def byLength (models : Table Bytes Bytes) : List (Bytes × Bytes) :=
  models.mergeSort fun a b => b.1.length ≤ a.1.length

/-- The backend's name of a model: that of the very name if the mapping has it, else that of the
    longest source which contains the name or is contained in it, else the name itself. -/
def redirect (b : Backend) (model : Bytes) : Bytes :=
  match Table.find? b.models model with
  | some target => target
  | none =>
    match (byLength b.models).find? fun e => model.contains e.1 || e.1.contains model with
    | some e => e.2
    | none => model

end Backend

end ChatRelay
