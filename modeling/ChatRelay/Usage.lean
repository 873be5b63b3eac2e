import ChatRelay.Json.Basic

/-!
# Token usage

What a reply cost, apart from the dialect that reports it. `Usage` holds the counts; `ofClaude`,
`ofGemini` and `ofOpenai` read the three reports, and `ofReport` chooses between them by the fields
that are present. The four `to…` functions write a report.

`inputTokens` never includes cached input: reports that count it in are corrected on reading, and
writers that count it in add it back. Counts are 64-bit signed words, so sums wrap.
-/

namespace ChatRelay

/-- How long created cache entries live. -/
inductive CacheLifetime where
  | fiveMinutes
  | oneHour
  /-- Some of either. -/
  | mixed
  deriving DecidableEq

def CacheLifetime.name : CacheLifetime → Bytes
  | fiveMinutes => "5m"
  | oneHour => "1h"
  | mixed => "mixed"

/-- Token counts of a reply. -/
structure Usage where
  /-- Input that was not read from a cache. -/
  inputTokens : Int := 0
  outputTokens : Int := 0
  totalTokens : Int := 0
  cacheReadTokens : Option Int := none
  cacheCreationTokens : Option Int := none
  cacheCreation5mTokens : Option Int := none
  cacheCreation1hTokens : Option Int := none
  cacheLifetime : Option CacheLifetime := none
  /-- Input that was read from a cache, where the report says so. -/
  cachedTokens : Option Int := none
  reasoningTokens : Option Int := none
  deriving DecidableEq, Inhabited

namespace Usage

/-- The sum of two counts. -/
def add (a b : Int) : Int :=
  Word.toInt64 (a + b)

/-- What is left of a count, never less than nothing. -/
def less (a b : Int) : Int :=
  max 0 (Word.toInt64 (a - b))

/-! ## 1. Reading -/

/-- The dialect of a report, by the fields that are present. A report with Claude's cache counts is
    Claude's, whoever sent it; one without any telling field is OpenAI's. -/
inductive ReportDialect where
  | claude
  | gemini
  | openai
  deriving DecidableEq

def ReportDialect.name : ReportDialect → Bytes
  | claude => "claude"
  | gemini => "gemini"
  | openai => "openai"

def dialectOf (report : Json) : ReportDialect :=
  if (report.field? "cache_creation_input_tokens").isSome ∨
      (report.field? "cache_read_input_tokens").isSome then .claude
  else if (report.field? "promptTokenCount").isSome then .gemini
  else .openai

/-- The lifetime that the two counts of created cache entries speak of. -/
def lifetimeOf (fiveMinutes oneHour : Option Int) : Option CacheLifetime :=
  match decide (0 < fiveMinutes.getD 0), decide (0 < oneHour.getD 0) with
  | true, true => some .mixed
  | false, true => some .oneHour
  | true, false => some .fiveMinutes
  | false, false => none

/-- A Claude report. Only cache reads are cached input; what is written to the cache is new. -/
def ofClaude (report : Json) : Usage :=
  let input := (report.intField? "input_tokens").getD 0
  let output := (report.intField? "output_tokens").getD 0
  let fiveMinutes := report.intField? "cache_creation_5m_input_tokens"
  let oneHour := report.intField? "cache_creation_1h_input_tokens"
  let cacheRead := report.intField? "cache_read_input_tokens"
  { inputTokens := input
    outputTokens := output
    totalTokens := (report.intField? "total_tokens").getD (add input output)
    cacheReadTokens := cacheRead
    cacheCreationTokens := report.intField? "cache_creation_input_tokens"
    cacheCreation5mTokens := fiveMinutes
    cacheCreation1hTokens := oneHour
    cacheLifetime := lifetimeOf fiveMinutes oneHour
    cachedTokens := cacheRead.filter (0 < ·) }

/-- A Gemini report. Its prompt count includes the cached content. -/
def ofGemini (report : Json) : Usage :=
  let cached := (report.intField? "cachedContentTokenCount").getD 0
  let input := less ((report.intField? "promptTokenCount").getD 0) cached
  let output := (report.intField? "candidatesTokenCount").getD 0
  let cacheRead := if 0 < cached then some cached else none
  { inputTokens := input
    outputTokens := output
    totalTokens := (report.intField? "totalTokenCount").getD (add input output)
    cacheReadTokens := cacheRead
    cachedTokens := cacheRead
    reasoningTokens := report.intField? "thoughtsTokenCount" }

/-- The count under `key` of the first of two fields that is an object. -/
def detail? (report : Json) (first second key : Bytes) : Option Int :=
  ((report.objectField? first).or (report.objectField? second)).bind (·.intField? key)

/-- An OpenAI report, of a chat completion or of the Responses interface. Its input count includes
    the cached input. -/
def ofOpenai (report : Json) : Usage :=
  let input := ((report.intField? "input_tokens").or (report.intField? "prompt_tokens")).getD 0
  let output :=
    ((report.intField? "output_tokens").or (report.intField? "completion_tokens")).getD 0
  let cached :=
    (detail? report "input_tokens_details" "prompt_tokens_details" "cached_tokens").map (max 0)
  let input := cached.elim input (less input)
  { inputTokens := input
    outputTokens := output
    totalTokens := (report.intField? "total_tokens").getD (add input output)
    cacheReadTokens := cached
    cachedTokens := cached
    reasoningTokens :=
      detail? report "output_tokens_details" "completion_tokens_details" "reasoning_tokens" }

/-- A report of any dialect; a value that is no object reports nothing. -/
def ofReport (report : Json) : Usage :=
  if report.isObject then
    match dialectOf report with
    | .claude => ofClaude report
    | .gemini => ofGemini report
    | .openai => ofOpenai report
  else {}

/-! ## 2. Writing -/

def toClaude (u : Usage) : Json :=
  .objectWith
    [("input_tokens", .int u.inputTokens), ("output_tokens", .int u.outputTokens)]
    [("cache_creation_input_tokens", u.cacheCreationTokens.map .int),
      ("cache_read_input_tokens", u.cacheReadTokens.map .int),
      ("cache_creation_5m_input_tokens", u.cacheCreation5mTokens.map .int),
      ("cache_creation_1h_input_tokens", u.cacheCreation1hTokens.map .int),
      ("cache_ttl", u.cacheLifetime.map fun l => .str l.name)]

def toOpenai (u : Usage) : Json :=
  let prompt := add u.inputTokens (u.cachedTokens.getD 0)
  .objectWith
    [("prompt_tokens", .int prompt), ("completion_tokens", .int u.outputTokens),
      ("total_tokens", .int (add prompt u.outputTokens))]
    [("prompt_tokens_details",
        u.cachedTokens.map fun n => .object [("cached_tokens", .int n)]),
      ("completion_tokens_details",
        u.reasoningTokens.map fun n => .object [("reasoning_tokens", .int n)])]

def toGemini (u : Usage) : Json :=
  let cacheRead := u.cacheReadTokens.getD 0
  let prompt := add u.inputTokens cacheRead
  .objectWith
    [("promptTokenCount", .int prompt), ("candidatesTokenCount", .int u.outputTokens),
      ("totalTokenCount", .int (add prompt u.outputTokens))]
    [("cachedContentTokenCount", if 0 < cacheRead then some (.int cacheRead) else none),
      ("thoughtsTokenCount", u.reasoningTokens.map .int)]

/-- The report of the Responses interface; it keeps Claude's cache counts beside its own. -/
def toResponses (u : Usage) : Json :=
  .objectWith
    [("input_tokens", .int u.inputTokens), ("output_tokens", .int u.outputTokens),
      ("total_tokens", .int u.totalTokens)]
    [("input_tokens_details",
        u.cachedTokens.map fun n => .object [("cached_tokens", .int n)]),
      ("output_tokens_details",
        u.reasoningTokens.map fun n => .object [("reasoning_tokens", .int n)]),
      ("cache_creation_input_tokens", u.cacheCreationTokens.map .int),
      ("cache_read_input_tokens", u.cacheReadTokens.map .int),
      ("cache_ttl", u.cacheLifetime.map fun l => .str l.name)]

end Usage

end ChatRelay
