import ChatRelay.Bridge.Basic
import ChatRelay.Proofs.RepliesBridge

/-!
# Headers on their way to the backend

What the client authenticated itself with, and what concerns its own connection only, does not reach
the backend. This is said in two ways.

* `Bridge.request_guards` -- two requests that differ in dropped headers only come to the same
  request to the backend, or fail in the same way; and the request that goes out has one credential,
  which is the configured key, and otherwise the headers of the client that are not dropped.
* `Guarded` -- what is true of the headers while they are put together. Each editing step has a
  lemma (`Guarded.set_host`, `Guarded.set_rewritten`, `Guarded.set_credential`), so that the order
  in which a bridge takes the steps does not matter.

Headers are looked at through tests of their names that are blind to the case of letters
(`IgnoresCase`, `keep`); what `set` and `erase` do to such a view does not depend on the order of
the headers.
-/

namespace ChatRelay

namespace Headers

variable {p q : Bytes → Bool} {h inbound credential : Headers} {name host : Bytes}

/-! ## 1. Headers by their names -/

/-- Whether the name is one of these, in any case of letters. -/
def isAmong (names : List Bytes) (name : Bytes) : Bool :=
  names.any fun n => n.lower = name.lower

/-- A test of names that is blind to the case of letters. -/
def IgnoresCase (p : Bytes → Bool) : Prop :=
  ∀ n m : Bytes, n.lower = m.lower → p n = p m

theorem ignoresCase_isAmong (names : List Bytes) : IgnoresCase (isAmong names) := by
  intro n m heq
  rw [isAmong, isAmong, heq]

theorem ignoresCase_isDropped : IgnoresCase isDropped :=
  ignoresCase_isAmong dropped

theorem isAmong_of_subset {names names' : List Bytes} (hsub : names ⊆ names')
    (h : isAmong names name = true) : isAmong names' name = true := by
  obtain ⟨n, hn, heq⟩ := List.any_eq_true.mp h
  exact List.any_eq_true.mpr ⟨n, hsub hn, heq⟩

/-- The headers whose names pass a test. -/
def keep (p : Bytes → Bool) (h : Headers) : Headers :=
  h.filter fun e => p e.1

theorem keep_cons_of_pos {value : Bytes} (hname : p name = true) :
    keep p ((name, value) :: h) = (name, value) :: keep p h :=
  List.filter_cons_of_pos hname

theorem keep_cons_of_neg {value : Bytes} (hname : p name = false) :
    keep p ((name, value) :: h) = keep p h :=
  List.filter_cons_of_neg (by simpa using hname)

theorem keep_keep_of_imp (himp : ∀ n, p n = true → q n = true) : keep p (keep q h) = keep p h := by
  unfold keep
  rw [List.filter_filter]
  refine List.filter_congr fun e _ => ?_
  cases hp : p e.1 with
  | false => rfl
  | true => rw [himp e.1 hp, Bool.and_self]

theorem keep_keep_of_not (himp : ∀ n, p n = true → q n = false) : keep p (keep q h) = [] := by
  unfold keep
  rw [List.filter_filter]
  refine List.filter_eq_nil_iff.mpr fun e _ hboth => ?_
  obtain ⟨hp, hq⟩ := Bool.and_eq_true_iff.mp hboth
  rw [himp e.1 hp] at hq
  cases hq

/-- A header that is out of view is set out of view. -/
theorem keep_set_of_neg (hp : IgnoresCase p) (hname : p name = false) (value : Bytes) :
    keep p (set h name value) = keep p h := by
  induction h with
  | nil => exact keep_cons_of_neg hname
  | cons head h ih =>
    obtain ⟨n, v⟩ := head
    rw [set]
    by_cases heq : name.lower = n.lower
    · have hn : p n = false := (hp n name heq.symm).trans hname
      rw [if_pos heq, keep_cons_of_neg hn, keep_cons_of_neg hn]
    · rw [if_neg heq]
      by_cases hlt : name.lower < n.lower
      · rw [if_pos hlt, keep_cons_of_neg hname]
      · rw [if_neg hlt]
        cases hn : p n with
        | false => rw [keep_cons_of_neg hn, keep_cons_of_neg hn, ih]
        | true => rw [keep_cons_of_pos hn, keep_cons_of_pos hn, ih]

/-- Where nothing is in view, a header that is set is all there is to see. -/
theorem keep_set_of_nil (hp : IgnoresCase p) (hname : p name = true) (hnil : keep p h = [])
    (value : Bytes) : keep p (set h name value) = [(name, value)] := by
  induction h with
  | nil => exact keep_cons_of_pos hname
  | cons head h ih =>
    obtain ⟨n, v⟩ := head
    have hn : p n = false := by
      cases hn : p n with
      | false => rfl
      | true =>
        rw [keep_cons_of_pos hn] at hnil
        cases hnil
    have hrest : keep p h = [] := by rwa [keep_cons_of_neg hn] at hnil
    rw [set]
    by_cases heq : name.lower = n.lower
    · rw [hp name n heq, hn] at hname
      cases hname
    · rw [if_neg heq]
      by_cases hlt : name.lower < n.lower
      · rw [if_pos hlt, keep_cons_of_pos hname, hnil]
      · rw [if_neg hlt, keep_cons_of_neg hn, ih hrest]

/-- A header that is out of view is erased out of view. -/
theorem keep_erase_of_neg (hp : IgnoresCase p) (hname : p name = false) :
    keep p (erase h name) = keep p h := by
  induction h with
  | nil => rfl
  | cons head h ih =>
    obtain ⟨n, v⟩ := head
    rw [erase]
    by_cases heq : n.lower = name.lower
    · rw [if_pos heq, keep_cons_of_neg ((hp n name heq).trans hname)]
    · rw [if_neg heq]
      cases hn : p n with
      | false => rw [keep_cons_of_neg hn, keep_cons_of_neg hn, ih]
      | true => rw [keep_cons_of_pos hn, keep_cons_of_pos hn, ih]

theorem erase_sublist (h : Headers) (name : Bytes) : (erase h name).Sublist h := by
  induction h with
  | nil => exact List.Sublist.refl _
  | cons head h ih =>
    obtain ⟨n, v⟩ := head
    rw [erase]
    split
    · exact List.sublist_cons_self _ _
    · exact ih.cons_cons _

theorem keep_erase_of_nil (hnil : keep p h = []) : keep p (erase h name) = [] := by
  have hsublist : (keep p (erase h name)).Sublist (keep p h) := (erase_sublist h name).filter _
  rw [hnil] at hsublist
  exact List.sublist_nil.mp hsublist

/-! ## 2. Headers for a backend -/

/-- The names under which a key is sent. -/
def credentialNames : List Bytes := ["Authorization", "x-api-key", "x-goog-api-key"]

/-- The names of headers that are not dropped and yet may get a value of the relay's own. -/
def rewrittenNames : List Bytes := ["Content-Type", "User-Agent", "anthropic-version"]

/-- Whether a header of the client goes on to the backend as it is. -/
def passes (name : Bytes) : Bool :=
  !isDropped name && !isAmong rewrittenNames name

/-- Whether a header is dropped and never set again. -/
def isLost (name : Bytes) : Bool :=
  isDropped name && !isAmong ("Host" :: credentialNames) name

/-- The header that names the host of the backend; there is none for a URL without a host. -/
def hostHeaders (host : Bytes) : Headers :=
  if host.isEmpty then [] else [("Host", host)]

/-- **Headers for the backend at a host**: of the dropped names there are the host and this
    credential, and of the names that pass there is what the client sent. -/
structure Guarded (inbound : Headers) (host : Bytes) (credential h : Headers) : Prop where
  credential : h.keep (isAmong credentialNames) = credential
  host : h.keep (isAmong ["Host"]) = hostHeaders host
  lost : h.keep isLost = []
  passed : h.keep passes = inbound.keep passes

theorem ignoresCase_passes : IgnoresCase passes := by
  intro n m heq
  rw [passes, passes, ignoresCase_isDropped n m heq, ignoresCase_isAmong _ n m heq]

theorem ignoresCase_isLost : IgnoresCase isLost := by
  intro n m heq
  rw [isLost, isLost, ignoresCase_isDropped n m heq, ignoresCase_isAmong _ n m heq]

/-- What the client sent, without what is dropped. -/
theorem guarded_keep (inbound : Headers) :
    Guarded inbound [] [] (inbound.keep fun n => !isDropped n) where
  credential := by
    refine keep_keep_of_not fun n hn => ?_
    have hdropped : isDropped n = true := isAmong_of_subset (by decide) hn
    rw [hdropped]
    rfl
  host := by
    refine keep_keep_of_not fun n hn => ?_
    have hdropped : isDropped n = true := isAmong_of_subset (by decide) hn
    rw [hdropped]
    rfl
  lost := by
    refine keep_keep_of_not fun n hn => ?_
    rw [(Bool.and_eq_true_iff.mp hn).1]
    rfl
  passed := keep_keep_of_imp fun n hn => (Bool.and_eq_true_iff.mp hn).1

namespace Guarded

theorem set_host (hg : Guarded inbound [] credential h) (host : Bytes) :
    Guarded inbound host credential (if host.isEmpty then h else set h "Host" host) := by
  by_cases hempty : host.isEmpty = true
  · rw [if_pos hempty]
    obtain rfl : host = [] := List.isEmpty_iff.mp hempty
    exact hg
  · rw [if_neg hempty]
    refine ⟨?_, ?_, ?_, ?_⟩
    · rw [keep_set_of_neg (ignoresCase_isAmong _) (by decide), hg.credential]
    · rw [keep_set_of_nil (ignoresCase_isAmong _) (by decide) hg.host, hostHeaders, if_neg hempty]
    · rw [keep_set_of_neg ignoresCase_isLost (by decide), hg.lost]
    · rw [keep_set_of_neg ignoresCase_passes (by decide), hg.passed]

theorem set_rewritten (hg : Guarded inbound host credential h) (hname : name ∈ rewrittenNames)
    (value : Bytes) : Guarded inbound host credential (set h name value) := by
  have hout : ∀ n ∈ rewrittenNames, isAmong credentialNames n = false ∧
      isAmong ["Host"] n = false ∧ isLost n = false ∧ passes n = false := by decide
  obtain ⟨hcredential, hhost, hlost, hpasses⟩ := hout name hname
  refine ⟨?_, ?_, ?_, ?_⟩
  · rw [keep_set_of_neg (ignoresCase_isAmong _) hcredential, hg.credential]
  · rw [keep_set_of_neg (ignoresCase_isAmong _) hhost, hg.host]
  · rw [keep_set_of_neg ignoresCase_isLost hlost, hg.lost]
  · rw [keep_set_of_neg ignoresCase_passes hpasses, hg.passed]

theorem set_unless (hg : Guarded inbound host credential h) (hname : name ∈ rewrittenNames)
    (given : Bool) (value : Bytes) :
    Guarded inbound host credential (if given then h else set h name value) := by
  cases given with
  | true => exact hg
  | false => exact hg.set_rewritten hname value

/-- What a name of a credential is out of view of. -/
theorem credentialName_out (hname : name ∈ credentialNames) :
    isAmong credentialNames name = true ∧ isAmong ["Host"] name = false ∧ isLost name = false ∧
      passes name = false := by
  have hout : ∀ n ∈ credentialNames, isAmong credentialNames n = true ∧
      isAmong ["Host"] n = false ∧ isLost n = false ∧ passes n = false := by decide
  exact hout name hname

theorem erase_credential (hg : Guarded inbound host [] h) (hname : name ∈ credentialNames) :
    Guarded inbound host [] (erase h name) := by
  obtain ⟨-, hhost, hlost, hpasses⟩ := credentialName_out hname
  refine ⟨keep_erase_of_nil hg.credential, ?_, keep_erase_of_nil hg.lost, ?_⟩
  · rw [keep_erase_of_neg (ignoresCase_isAmong _) hhost, hg.host]
  · rw [keep_erase_of_neg ignoresCase_passes hpasses, hg.passed]

theorem set_credential (hg : Guarded inbound host [] h) (hname : name ∈ credentialNames)
    (value : Bytes) : Guarded inbound host [(name, value)] (set h name value) := by
  obtain ⟨hcredential, hhost, hlost, hpasses⟩ := credentialName_out hname
  refine ⟨keep_set_of_nil (ignoresCase_isAmong _) hcredential hg.credential value, ?_, ?_, ?_⟩
  · rw [keep_set_of_neg (ignoresCase_isAmong _) hhost, hg.host]
  · rw [keep_set_of_neg ignoresCase_isLost hlost, hg.lost]
  · rw [keep_set_of_neg ignoresCase_passes hpasses, hg.passed]

end Guarded

/-! ## 3. Step by step -/

theorem guarded_forBackend (inbound : Headers) (host : Bytes) :
    Guarded inbound host [] (forBackend inbound host) :=
  ((guarded_keep inbound).set_host host).set_unless (by decide) _ _

/-- The header that carries the key. -/
def keyHeader (apiKey : Bytes) : Bytes × Bytes :=
  if apiKey.startsWith "sk-ant-" then ("x-api-key", apiKey)
  else ("Authorization", Bytes.ofString "Bearer " ++ apiKey)

/-- The header that carries the key to a Gemini backend. -/
def geminiKeyHeader (apiKey : Bytes) : Bytes × Bytes :=
  ("x-goog-api-key", apiKey)

namespace Guarded

theorem authenticate (hg : Guarded inbound host [] h) (apiKey : Bytes) :
    Guarded inbound host [keyHeader apiKey] (h.authenticate apiKey) := by
  have herased : Guarded inbound host [] (erase (erase h "Authorization") "x-api-key") :=
    (hg.erase_credential (by decide)).erase_credential (by decide)
  unfold Headers.authenticate keyHeader
  dsimp only
  split
  · exact herased.set_credential (by decide) _
  · exact herased.set_credential (by decide) _

theorem authenticateGemini (hg : Guarded inbound host [] h) (apiKey : Bytes) :
    Guarded inbound host [geminiKeyHeader apiKey] (h.authenticateGemini apiKey) :=
  ((hg.erase_credential (by decide)).erase_credential (by decide)).set_credential (by decide) _

theorem asClaudeClient (hg : Guarded inbound host credential h) (userAgent : Bytes) :
    Guarded inbound host credential (h.asClaudeClient userAgent) := by
  unfold Headers.asClaudeClient
  cases find? h "User-Agent" with
  | none => exact (hg.set_rewritten (by decide) _).set_unless (by decide) _ _
  | some agent => exact (hg.set_unless (by decide) _ _).set_unless (by decide) _ _

end Guarded

/-- Dropped headers do not matter to what goes on. -/
theorem forBackend_congr {h h' : Headers}
    (heq : (h.keep fun n => !isDropped n) = h'.keep fun n => !isDropped n) (host : Bytes) :
    forBackend h host = forBackend h' host := by
  unfold forBackend
  rw [show (h.filter fun e => !isDropped e.1) = h'.filter fun e => !isDropped e.1 from heq]

end Headers

/-! ## 4. Requests -/

open Headers

/-- **Two requests that differ in dropped headers only**: in which of them there are, in their
    values and in the letters of their names. -/
structure ClientRequest.Alike (inbound inbound' : ClientRequest) : Prop where
  method : inbound.method = inbound'.method
  path : inbound.path = inbound'.path
  query : inbound.query = inbound'.query
  body : inbound.body = inbound'.body
  headers : (inbound.headers.keep fun n => !isDropped n) =
    inbound'.headers.keep fun n => !isDropped n

namespace Bridge

/-- The header that carries the key to the backend of a bridge. -/
def keyHeader (b : Bridge) (apiKey : Bytes) : Bytes × Bytes :=
  match b with
  | claudeToGemini _ | geminiTo .gemini _ => Headers.geminiKeyHeader apiKey
  | _ => Headers.keyHeader apiKey

variable {inbound inbound' : ClientRequest} {outbound : BackendRequest} {backend : Backend}
  {apiKey : Bytes} {options : Options}

/-- A request does not depend on dropped headers. -/
theorem request_congr (halike : inbound.Alike inbound') (b : Bridge) (backend : Backend)
    (apiKey : Bytes) (sessions : SessionStore) (options : Options) :
    b.request inbound backend apiKey sessions options =
      b.request inbound' backend apiKey sessions options := by
  have hheaders := forBackend_congr halike.headers
  cases b <;> simp only [request, ClaudeClient.requestToClaude, ClaudeClient.requestToOpenai,
    ClaudeClient.requestToGemini, GeminiClient.request, RepliesClient.request, halike.method,
    halike.path, halike.query, halike.body, hheaders]

theorem guarded_of_requestToClaude
    (h : (ClaudeClient.requestToClaude inbound backend apiKey options).result = .ok outbound) :
    Guarded inbound.headers (Url.host outbound.url) [Headers.keyHeader apiKey]
      outbound.headers := by
  rw [ClaudeClient.requestToClaude] at h
  simp only [Attempt.bind_eq, Attempt.result_andThen] at h
  obtain ⟨body, -, h⟩ := bind_eq_ok_iff.mp h
  cases h
  exact ((guarded_forBackend _ _).authenticate apiKey).asClaudeClient _

theorem guarded_of_requestToOpenai
    (h : (ClaudeClient.requestToOpenai inbound backend apiKey options).result = .ok outbound) :
    Guarded inbound.headers (Url.host outbound.url) [Headers.keyHeader apiKey]
      outbound.headers := by
  rw [ClaudeClient.requestToOpenai] at h
  simp only [Attempt.bind_eq, Attempt.result_andThen] at h
  obtain ⟨value, -, h⟩ := bind_eq_ok_iff.mp h
  obtain ⟨converted, -, h⟩ := bind_eq_ok_iff.mp h
  obtain ⟨_, -, h⟩ := bind_eq_ok_iff.mp h
  obtain ⟨body, -, h⟩ := bind_eq_ok_iff.mp h
  cases h
  exact ((guarded_forBackend _ _).set_rewritten (by decide) _).authenticate apiKey

theorem guarded_of_requestToGemini
    (h : (ClaudeClient.requestToGemini inbound backend apiKey).result = .ok outbound) :
    Guarded inbound.headers (Url.host outbound.url) [Headers.geminiKeyHeader apiKey]
      outbound.headers := by
  rw [ClaudeClient.requestToGemini] at h
  simp only [Attempt.bind_eq, Attempt.result_andThen] at h
  obtain ⟨value, -, h⟩ := bind_eq_ok_iff.mp h
  obtain ⟨converted, -, h⟩ := bind_eq_ok_iff.mp h
  obtain ⟨body, -, h⟩ := bind_eq_ok_iff.mp h
  cases h
  dsimp only
  exact ((guarded_forBackend _ _).set_rewritten (by decide) _).authenticateGemini apiKey

theorem guarded_authenticate_gemini {h : Headers} {host : Bytes}
    (hg : Guarded inbound.headers host [] h) (dialect : Dialect) (route : Gemini.Route) :
    Guarded inbound.headers host [(geminiTo dialect route).keyHeader apiKey]
      (GeminiClient.authenticate dialect h apiKey) := by
  cases dialect with
  | claude => exact (hg.authenticate apiKey).set_rewritten (by decide) _
  | openai => exact hg.authenticate apiKey
  | gemini => exact hg.authenticateGemini apiKey
  | responses => exact hg.authenticate apiKey

theorem guarded_of_geminiRequest {dialect : Dialect} (route : Gemini.Route)
    (h : (GeminiClient.request dialect inbound backend apiKey).result = .ok outbound) :
    Guarded inbound.headers (Url.host outbound.url) [(geminiTo dialect route).keyHeader apiKey]
      outbound.headers := by
  rw [GeminiClient.request] at h
  simp only [Attempt.bind_eq, Attempt.result_andThen] at h
  obtain ⟨asked, -, h⟩ := bind_eq_ok_iff.mp h
  obtain ⟨value, -, h⟩ := bind_eq_ok_iff.mp h
  obtain ⟨⟨endpoint, query, body⟩, -, h⟩ := bind_eq_ok_iff.mp h
  obtain ⟨_, -, h⟩ := bind_eq_ok_iff.mp h
  cases h
  dsimp only
  exact guarded_authenticate_gemini ((guarded_forBackend _ _).set_rewritten (by decide) _) _ _

theorem guarded_authenticate_replies {h : Headers} {host : Bytes}
    (hg : Guarded inbound.headers host [] h) (dialect : Dialect) :
    Guarded inbound.headers host [Headers.keyHeader apiKey]
      (RepliesClient.authenticate dialect h apiKey options) := by
  unfold RepliesClient.authenticate
  dsimp only
  split
  · exact ((hg.authenticate apiKey).set_rewritten (by decide) _).asClaudeClient _
  · exact hg.authenticate apiKey

theorem guarded_of_repliesRequest {dialect : Dialect} {sessions : SessionStore}
    (h : (RepliesClient.request dialect inbound backend apiKey sessions options).result =
      .ok outbound) :
    Guarded inbound.headers (Url.host outbound.url) [Headers.keyHeader apiKey]
      outbound.headers := by
  rw [RepliesClient.request] at h
  simp only [Attempt.bind_eq, Attempt.result_andThen] at h
  obtain ⟨value, -, h⟩ := bind_eq_ok_iff.mp h
  obtain ⟨⟨endpoint, body⟩, -, h⟩ := bind_eq_ok_iff.mp h
  obtain ⟨_, -, h⟩ := bind_eq_ok_iff.mp h
  cases h
  dsimp only
  exact guarded_authenticate_replies ((guarded_forBackend _ _).set_rewritten (by decide) _) _

/-- **The client's credentials and the headers of its connection stay behind**, at every bridge. Two
    requests that differ in dropped headers only come to the same: the same request to the backend
    or the same failure, with the same log. A request that goes out has one credential, the
    configured key in the header of the backend, and it has the headers of the client that are
    neither dropped nor rewritten, as they came; of the other dropped names there is only the host
    of its own URL. -/
theorem request_guards {inbound inbound' : ClientRequest} (halike : inbound.Alike inbound')
    (b : Bridge) (backend : Backend) (apiKey : Bytes) (sessions : SessionStore)
    (options : Options) :
    b.request inbound backend apiKey sessions options =
        b.request inbound' backend apiKey sessions options ∧
      ∀ outbound, (b.request inbound backend apiKey sessions options).result = .ok outbound →
        Guarded inbound.headers (Url.host outbound.url) [b.keyHeader apiKey] outbound.headers := by
  refine ⟨request_congr halike b backend apiKey sessions options, fun outbound h => ?_⟩
  cases b with
  | claudeToClaude => exact guarded_of_requestToClaude h
  | claudeToOpenai => exact guarded_of_requestToOpenai h
  | claudeToGemini model => exact guarded_of_requestToGemini h
  | geminiTo dialect route => exact guarded_of_geminiRequest route h
  | repliesTo dialect asked => exact guarded_of_repliesRequest h

/-- A client with a key of its own, in letters of either case, and one with none. -/
theorem request_guards_of_two_clients :
    let inbound : ClientRequest :=
      { method := "POST", path := "/v1/messages", query := [], body := "\x7b\x7d"
        headers := .ofList [("authorization", "Bearer mine"), ("X-API-KEY", "mine"),
          ("connection", "close"), ("X-Trace", "7"), ("Accept", "*/*")] }
    let inbound' : ClientRequest :=
      { inbound with headers := .ofList [("X-Trace", "7"), ("Accept", "*/*"), ("Host", "relay")] }
    let backend : Backend :=
      { name := "main", dialect := .claude, baseUrl := "https://backend/base", baseUrls := [],
        apiKeys := [], models := [] }
    let request (inbound : ClientRequest) : Attempt BackendRequest :=
      claudeToClaude.request inbound backend "sk-ant-1" {} .default
    ∃ outbound, (request inbound).result = .ok outbound ∧
      (request inbound').result = .ok outbound ∧
      outbound.headers.find? "X-Trace" = some "7" ∧
      Guarded inbound.headers "backend" [("x-api-key", "sk-ant-1")] outbound.headers := by
  intro inbound inbound' backend request
  have halike : inbound.Alike inbound' := ⟨rfl, rfl, rfl, rfl, by decide +kernel⟩
  obtain ⟨hsame, hguarded⟩ := request_guards halike claudeToClaude backend "sk-ant-1" {} .default
  obtain ⟨outbound, hout⟩ : ∃ outbound, (request inbound).result = .ok outbound := ⟨_, rfl⟩
  have hfound : (request inbound).result.toOption.map
      (fun o => (Url.host o.url, o.headers.find? "X-Trace")) =
        some (Bytes.ofString "backend", some (Bytes.ofString "7")) := by decide +kernel
  rw [hout] at hfound
  obtain ⟨hhost, htrace⟩ := Prod.mk.inj (Option.some.inj hfound)
  refine ⟨outbound, hout, (congrArg Attempt.result hsame).symm.trans hout, htrace, ?_⟩
  rw [← hhost]
  exact hguarded outbound hout

end Bridge

end ChatRelay
