import ChatRelay.Dialect
import ChatRelay.Proofs.Objects
import ChatRelay.Usage

/-!
# Usage reports that are read back

A usage report that the relay has written is read again, by another relay or by this one when it
records an exchange. Its dialect is then guessed from its fields. Whatever dialect the counts came
from and whatever dialect they are written in, they are read back as they were: cached input that
was counted out is counted in again where the reader counts it out once more, and nowhere else
(`ofReport_writeAs`).

`Fair` is what the three readers have in common; the four writers are treated one by one on it.
-/

namespace ChatRelay.Usage

/-! ## 1. Readers and writers -/

/-- The counts of a report that is taken for one of a dialect. -/
def readAs : ReportDialect → Json → Usage
  | .claude => ofClaude
  | .gemini => ofGemini
  | .openai => ofOpenai

/-- The report for a client of a dialect. -/
def writeAs : Dialect → Usage → Json
  | .claude => toClaude
  | .openai => toOpenai
  | .gemini => toGemini
  | .responses => toResponses

/-- The sums that a reader forms: the total, should the report tell none. -/
def sumsOfReading (u : Usage) : List Int :=
  [u.inputTokens + u.outputTokens]

/-- The sums that a writer forms: the whole input, and the total with it. -/
def sumsOfWriting (client : Dialect) (u : Usage) : List Int :=
  match client with
  | .openai =>
    [u.inputTokens + u.cachedTokens.getD 0,
      add u.inputTokens (u.cachedTokens.getD 0) + u.outputTokens]
  | .gemini =>
    [u.inputTokens + u.cacheReadTokens.getD 0,
      add u.inputTokens (u.cacheReadTokens.getD 0) + u.outputTokens]
  | .claude | .responses => []

/-! ## 2. Counts -/

/-- A count that leaves room for sums of a few. -/
def IsCount (n : Int) : Prop :=
  0 ≤ n ∧ n < 0x2000000000000000

instance (n : Int) : Decidable (IsCount n) :=
  inferInstanceAs (Decidable (0 ≤ n ∧ n < 0x2000000000000000))

/-- The keys under which reports tell their counts. -/
def countKeys : List Bytes :=
  ["input_tokens", "output_tokens", "total_tokens", "cache_read_input_tokens",
    "cache_creation_input_tokens", "cache_creation_5m_input_tokens",
    "cache_creation_1h_input_tokens", "prompt_tokens", "completion_tokens", "promptTokenCount",
    "candidatesTokenCount", "totalTokenCount", "cachedContentTokenCount", "thoughtsTokenCount"]

/-- The keys under which OpenAI reports tell more of their input. -/
def detailKeys : List Bytes :=
  ["input_tokens_details", "prompt_tokens_details"]

/-- A report whose counts, as far as it has them, are such counts. -/
structure Moderate (report : Json) : Prop where
  counts : ∀ key ∈ countKeys, ∀ n ∈ report.intField? key, IsCount n
  cached : ∀ key ∈ detailKeys, ∀ details ∈ report.objectField? key,
    ∀ n ∈ details.intField? "cached_tokens", IsCount n

section

variable {a b : Int}

theorem toInt64_eq_self (h : IsCount a) : Word.toInt64 a = a :=
  Word.toInt64_eq (by have := h.1; omega) (by have := h.2; omega)

theorem add_eq (ha : IsCount a) (hb : IsCount b) : add a b = a + b :=
  Word.toInt64_eq (by have := ha.1; have := hb.1; omega) (by have := ha.2; have := hb.2; omega)

theorem less_eq (ha : IsCount a) (hb : IsCount b) : less a b = max 0 (a - b) := by
  have hab : Word.toInt64 (a - b) = a - b :=
    Word.toInt64_eq (by have := ha.1; have := hb.2; omega) (by have := ha.2; have := hb.1; omega)
  rw [less, hab]

theorem isCount_less (ha : IsCount a) (hb : IsCount b) : IsCount (less a b) := by
  rw [less_eq ha hb]
  have h := ha.2
  have h' := hb.1
  unfold IsCount
  omega

theorem toInt64_add (ha : IsCount a) (hb : IsCount b) : Word.toInt64 (add a b) = add a b := by
  rw [add_eq ha hb]
  exact add_eq ha hb

/-- What was counted in is counted out again. -/
theorem less_add (ha : IsCount a) (hb : IsCount b) : less (add a b) b = a := by
  have hab : a + b - b = a := Int.add_sub_cancel a b
  rw [less, add_eq ha hb, hab, toInt64_eq_self ha, Int.max_eq_right ha.1]

end

theorem isCount_zero : IsCount 0 := by
  decide

theorem isCount_getD {o : Option Int} (h : ∀ n, o = some n → IsCount n) : IsCount (o.getD 0) := by
  cases o with
  | none => exact isCount_zero
  | some n => exact h n rfl

/-! ## 3. Reading -/

/-- What the three readers have in common: sound counts, and a cached input that is the cache read,
    except that one of 0 may go unsaid. -/
structure Fair (u : Usage) : Prop where
  input : IsCount u.inputTokens
  output : IsCount u.outputTokens
  total : 0 ≤ u.totalTokens ∧ u.totalTokens < 0x4000000000000000
  read : IsCount (u.cacheReadTokens.getD 0)
  cached_eq : u.cachedTokens.getD 0 = u.cacheReadTokens.getD 0
  cached_none : u.cacheReadTokens = none → u.cachedTokens = none

/-- The total of a report, or the sum that stands for it. -/
theorem total_of_counts {told : Option Int} (htold : ∀ n, told = some n → IsCount n) {a b : Int}
    (ha : IsCount a) (hb : IsCount b) :
    0 ≤ told.getD (add a b) ∧ told.getD (add a b) < 0x4000000000000000 := by
  cases told with
  | none =>
    show 0 ≤ add a b ∧ add a b < _
    rw [add_eq ha hb]
    have h := ha.2
    have h' := hb.2
    exact ⟨Int.add_nonneg ha.1 hb.1, by omega⟩
  | some n =>
    have h := (htold n rfl).2
    exact ⟨(htold n rfl).1, show n < _ by omega⟩

/-- A count that is told only when there is something to tell. -/
theorem getD_filter_pos {o : Option Int} (h : IsCount (o.getD 0)) :
    (o.filter (0 < ·)).getD 0 = o.getD 0 := by
  cases o with
  | none => rfl
  | some n =>
    have hn : 0 ≤ n := h.1
    by_cases hpos : 0 < n
    · rw [Option.filter_some, if_pos (decide_eq_true hpos)]
    · have hzero : n = 0 := by omega
      rw [Option.filter_some, if_neg (by simpa using hpos), hzero]
      rfl

section

variable {report : Json} (h : Moderate report)

include h

theorem Moderate.getD (key : Bytes) (hkey : key ∈ countKeys) :
    IsCount ((report.intField? key).getD 0) :=
  isCount_getD (h.counts key hkey)

theorem Moderate.either (first second : Bytes) (hfirst : first ∈ countKeys)
    (hsecond : second ∈ countKeys) :
    IsCount (((report.intField? first).or (report.intField? second)).getD 0) := by
  refine isCount_getD fun n hn => ?_
  rcases Option.or_eq_some_iff.mp hn with hn | ⟨-, hn⟩
  · exact h.counts first hfirst n hn
  · exact h.counts second hsecond n hn

theorem Moderate.detail {first second : Bytes} (hfirst : first ∈ detailKeys)
    (hsecond : second ∈ detailKeys) {n : Int}
    (hn : detail? report first second "cached_tokens" = some n) : IsCount n := by
  obtain ⟨details, hdetails, hn⟩ := Option.bind_eq_some_iff.mp hn
  rcases Option.or_eq_some_iff.mp hdetails with hdetails | ⟨-, hdetails⟩
  · exact h.cached first hfirst details hdetails n hn
  · exact h.cached second hsecond details hdetails n hn

theorem fair_ofClaude : (ofClaude report).Fair := by
  have hinput := h.getD "input_tokens" (by decide)
  have houtput := h.getD "output_tokens" (by decide)
  have hread := h.getD "cache_read_input_tokens" (by decide)
  refine ⟨hinput, houtput, total_of_counts (h.counts "total_tokens" (by decide)) hinput houtput,
    hread, getD_filter_pos hread, fun hnone => ?_⟩
  show (report.intField? "cache_read_input_tokens").filter (0 < ·) = none
  rw [show report.intField? "cache_read_input_tokens" = none from hnone]
  rfl

theorem fair_ofGemini : (ofGemini report).Fair := by
  have hcached := h.getD "cachedContentTokenCount" (by decide)
  have hinput := isCount_less (h.getD "promptTokenCount" (by decide)) hcached
  have houtput := h.getD "candidatesTokenCount" (by decide)
  refine ⟨hinput, houtput,
    total_of_counts (h.counts "totalTokenCount" (by decide)) hinput houtput, ?_, rfl, id⟩
  refine isCount_getD fun n hn => ?_
  obtain ⟨-, hn⟩ := Option.ite_none_right_eq_some.mp hn
  exact Option.some.inj hn ▸ hcached

theorem fair_ofOpenai : (ofOpenai report).Fair := by
  have hprompt := h.either "input_tokens" "prompt_tokens" (by decide) (by decide)
  have houtput := h.either "output_tokens" "completion_tokens" (by decide) (by decide)
  have hcached : ∀ n, (detail? report "input_tokens_details" "prompt_tokens_details"
      "cached_tokens").map (max 0) = some n → IsCount n := by
    intro n hn
    obtain ⟨m, hm, rfl⟩ := Option.map_eq_some_iff.mp hn
    have hm := h.detail (by decide) (by decide) hm
    rw [Int.max_eq_right hm.1]
    exact hm
  have hinput : IsCount (ofOpenai report).inputTokens := by
    unfold ofOpenai
    generalize (detail? report "input_tokens_details" "prompt_tokens_details"
      "cached_tokens").map (max 0) = cached at hcached
    cases cached with
    | none => exact hprompt
    | some n => exact isCount_less hprompt (hcached n rfl)
  exact ⟨hinput, houtput, total_of_counts (h.counts "total_tokens" (by decide)) hinput houtput,
    isCount_getD hcached, rfl, id⟩

end

/-- **Whoever reads a report, its counts are fair.** -/
theorem fair_readAs {report : Json} (h : Moderate report) (dialect : ReportDialect) :
    (readAs dialect report).Fair := by
  cases dialect with
  | claude => exact fair_ofClaude h
  | gemini => exact fair_ofGemini h
  | openai => exact fair_ofOpenai h

/-! ## 4. Reading back -/

/-- The counts that have to be read back. A cache read of 0 may be left out. -/
structure Agrees (again u : Usage) : Prop where
  input : again.inputTokens = u.inputTokens
  output : again.outputTokens = u.outputTokens
  read : again.cacheReadTokens.getD 0 = u.cacheReadTokens.getD 0

/-- A count that may be missing, as it is read back. -/
theorem getD_toInt64 {o : Option Int} (h : IsCount (o.getD 0)) :
    ((o.map Json.int).bind Json.int?).getD 0 = o.getD 0 := by
  cases o with
  | none => rfl
  | some n => exact toInt64_eq_self h

section

variable {report : Json}

theorem intField?_of_field? {key : Bytes} {n : Int} (hfield : report.field? key = some (.int n)) :
    report.intField? key = some (Word.toInt64 n) := by
  rw [Json.intField?, hfield]
  rfl

/-- A report with Claude's cache counts is Claude's. -/
theorem ofReport_of_cacheCounts (hobject : report.isObject = true)
    (hcache : (report.field? "cache_creation_input_tokens").isSome = true ∨
      (report.field? "cache_read_input_tokens").isSome = true) :
    ofReport report = ofClaude report := by
  rw [ofReport, if_pos hobject, dialectOf, if_pos hcache]

/-- A report without them and without a prompt count is OpenAI's. -/
theorem ofReport_of_noCacheCounts (hobject : report.isObject = true)
    (hcreation : report.field? "cache_creation_input_tokens" = none)
    (hread : report.field? "cache_read_input_tokens" = none)
    (hprompt : report.field? "promptTokenCount" = none) : ofReport report = ofOpenai report := by
  rw [ofReport, if_pos hobject, dialectOf, hcreation, hread, hprompt]
  rfl

/-- The total is the one that a report tells, unless it is Gemini's. -/
theorem totalTokens_ofReport (hobject : report.isObject = true)
    (hprompt : report.field? "promptTokenCount" = none) {total : Int}
    (htotal : report.intField? "total_tokens" = some total) :
    (ofReport report).totalTokens = total := by
  by_cases hcache : (report.field? "cache_creation_input_tokens").isSome = true ∨
      (report.field? "cache_read_input_tokens").isSome = true
  · rw [ofReport_of_cacheCounts hobject hcache]
    exact congrArg (Option.getD · _) htotal
  · obtain ⟨hcreation, hread⟩ := not_or.mp hcache
    rw [ofReport_of_noCacheCounts hobject (Option.not_isSome_iff_eq_none.mp hcreation)
      (Option.not_isSome_iff_eq_none.mp hread) hprompt]
    exact congrArg (Option.getD · _) htotal

/-- What an OpenAI report is read as, once its three counts are known. -/
theorem ofOpenai_eq {prompt output : Int} {cached : Option Int}
    (hprompt : (report.intField? "input_tokens").or (report.intField? "prompt_tokens") =
      some prompt)
    (houtput : (report.intField? "output_tokens").or (report.intField? "completion_tokens") =
      some output)
    (hcached : detail? report "input_tokens_details" "prompt_tokens_details" "cached_tokens" =
      cached) :
    (ofOpenai report).inputTokens = (cached.map (max 0)).elim prompt (less prompt) ∧
      (ofOpenai report).outputTokens = output ∧
      (ofOpenai report).cacheReadTokens = cached.map (max 0) := by
  unfold ofOpenai
  rw [hprompt, houtput, hcached]
  exact ⟨rfl, rfl, rfl⟩

end

section

variable {u : Usage} (h : u.Fair)

include h

/-- A report with the input as it is, read as Claude's. -/
theorem agrees_ofClaude {report : Json}
    (hinput : report.field? "input_tokens" = some (.int u.inputTokens))
    (houtput : report.field? "output_tokens" = some (.int u.outputTokens))
    (hread : report.field? "cache_read_input_tokens" = u.cacheReadTokens.map .int) :
    (ofClaude report).Agrees u := by
  refine ⟨?_, ?_, ?_⟩
  · show (report.intField? "input_tokens").getD 0 = _
    rw [intField?_of_field? hinput]
    exact toInt64_eq_self h.input
  · show (report.intField? "output_tokens").getD 0 = _
    rw [intField?_of_field? houtput]
    exact toInt64_eq_self h.output
  · show ((report.field? "cache_read_input_tokens").bind Json.int?).getD 0 = _
    rw [hread]
    exact getD_toInt64 h.read

/-- A report with the input as it is and nothing cached, read as OpenAI's. -/
theorem agrees_ofOpenai {report : Json}
    (hinput : report.field? "input_tokens" = some (.int u.inputTokens))
    (houtput : report.field? "output_tokens" = some (.int u.outputTokens))
    (hcached : detail? report "input_tokens_details" "prompt_tokens_details" "cached_tokens" = none)
    (hread : u.cacheReadTokens = none) : (ofOpenai report).Agrees u := by
  obtain ⟨hprompt, hcompletion, hcache⟩ := ofOpenai_eq
    (by rw [intField?_of_field? hinput]; rfl) (by rw [intField?_of_field? houtput]; rfl) hcached
  refine ⟨hprompt.trans (toInt64_eq_self h.input), hcompletion.trans (toInt64_eq_self h.output), ?_⟩
  rw [hcache, hread]
  rfl

/-- **A report with the input as it is** is read back, whichever of the two dialects it is taken
    for: Claude's cache counts do not touch the input, and without them nothing is cached. -/
theorem agrees_of_plain {report : Json} (hobject : report.isObject = true)
    (hinput : report.field? "input_tokens" = some (.int u.inputTokens))
    (houtput : report.field? "output_tokens" = some (.int u.outputTokens))
    (hcreation : report.field? "cache_creation_input_tokens" = u.cacheCreationTokens.map .int)
    (hread : report.field? "cache_read_input_tokens" = u.cacheReadTokens.map .int)
    (hprompt : report.field? "promptTokenCount" = none)
    (hcached : u.cachedTokens = none →
      detail? report "input_tokens_details" "prompt_tokens_details" "cached_tokens" = none) :
    (ofReport report).Agrees u := by
  by_cases hcache : u.cacheCreationTokens.isSome = true ∨ u.cacheReadTokens.isSome = true
  · rw [ofReport_of_cacheCounts hobject
      (by rwa [hcreation, hread, Option.isSome_map, Option.isSome_map])]
    exact agrees_ofClaude h hinput houtput hread
  · obtain ⟨hnocreation, hnoread⟩ := not_or.mp hcache
    rw [Option.not_isSome_iff_eq_none] at hnocreation hnoread
    rw [ofReport_of_noCacheCounts hobject (by rw [hcreation, hnocreation]; rfl)
      (by rw [hread, hnoread]; rfl) hprompt]
    exact agrees_ofOpenai h hinput houtput (hcached (h.cached_none hnoread)) hnoread

theorem agrees_toClaude : (ofReport u.toClaude).Agrees u := by
  have hfield (key : Bytes) : u.toClaude.field? key = _ :=
    Json.field?_objectWith_of_nodup (by simp only [List.map_cons, List.map_nil]; decide) key
  refine agrees_of_plain h rfl ((hfield _).trans rfl) ((hfield _).trans rfl)
    ((hfield _).trans rfl) ((hfield _).trans rfl) ((hfield _).trans rfl) fun _ => ?_
  rw [detail?, Json.objectField?, Json.objectField?, hfield, hfield]
  rfl

theorem agrees_toResponses : (ofReport u.toResponses).Agrees u := by
  have hfield (key : Bytes) : u.toResponses.field? key = _ :=
    Json.field?_objectWith_of_nodup (by simp only [List.map_cons, List.map_nil]; decide) key
  refine agrees_of_plain h rfl ((hfield _).trans rfl) ((hfield _).trans rfl)
    ((hfield _).trans rfl) ((hfield _).trans rfl) ((hfield _).trans rfl) fun hcached => ?_
  rw [detail?, Json.objectField?, Json.objectField?, hfield, hfield, hcached]
  rfl

/-- **A report with the cached input counted in**, as OpenAI's readers expect it. -/
theorem agrees_toOpenai : (ofReport u.toOpenai).Agrees u := by
  have hfield (key : Bytes) : u.toOpenai.field? key = _ :=
    Json.field?_objectWith_of_nodup (by simp only [List.map_cons, List.map_nil]; decide) key
  have hcount : IsCount (u.cachedTokens.getD 0) := h.cached_eq ▸ h.read
  have hsome (c : Int) (hc : u.cachedTokens = some c) : IsCount c := by rwa [hc] at hcount
  have hprompt : (u.toOpenai.intField? "input_tokens").or (u.toOpenai.intField? "prompt_tokens") =
      some (add u.inputTokens (u.cachedTokens.getD 0)) := by
    rw [Json.intField?, hfield, intField?_of_field? ((hfield "prompt_tokens").trans rfl),
      toInt64_add h.input hcount]
    rfl
  have houtput : (u.toOpenai.intField? "output_tokens").or
      (u.toOpenai.intField? "completion_tokens") = some u.outputTokens := by
    rw [Json.intField?, hfield, intField?_of_field? ((hfield "completion_tokens").trans rfl),
      toInt64_eq_self h.output]
    rfl
  have hcached : detail? u.toOpenai "input_tokens_details" "prompt_tokens_details"
      "cached_tokens" = u.cachedTokens := by
    rw [detail?, Json.objectField?, Json.objectField?, hfield, hfield]
    cases hc : u.cachedTokens with
    | none => rfl
    | some c => exact congrArg some (toInt64_eq_self (hsome c hc))
  obtain ⟨hinput, hcompletion, hread⟩ := ofOpenai_eq hprompt houtput hcached
  rw [ofReport_of_noCacheCounts rfl ((hfield _).trans rfl) ((hfield _).trans rfl)
    ((hfield _).trans rfl)]
  refine ⟨hinput.trans ?_, hcompletion, (congrArg (Option.getD · 0) hread).trans ?_⟩
  · cases hc : u.cachedTokens with
    | none => exact (add_eq h.input isCount_zero).trans (Int.add_zero _)
    | some c =>
      show less (add u.inputTokens c) (max 0 c) = _
      rw [Int.max_eq_right (hsome c hc).1]
      exact less_add h.input (hsome c hc)
  · rw [← h.cached_eq]
    cases hc : u.cachedTokens with
    | none => rfl
    | some c => exact Int.max_eq_right (hsome c hc).1

/-- **A report with the cache reads counted in**, as Gemini's readers expect it. -/
theorem agrees_toGemini : (ofReport u.toGemini).Agrees u := by
  have hfield (key : Bytes) : u.toGemini.field? key = _ :=
    Json.field?_objectWith_of_nodup (by simp only [List.map_cons, List.map_nil]; decide) key
  have hdialect : dialectOf u.toGemini = .gemini := by
    rw [dialectOf, hfield, hfield, hfield]
    rfl
  have hprompt : (u.toGemini.intField? "promptTokenCount").getD 0 =
      add u.inputTokens (u.cacheReadTokens.getD 0) := by
    rw [intField?_of_field? ((hfield _).trans rfl), toInt64_add h.input h.read]
    rfl
  have hcached : (u.toGemini.intField? "cachedContentTokenCount").getD 0 =
      u.cacheReadTokens.getD 0 := by
    have htold : u.toGemini.field? "cachedContentTokenCount" =
        if 0 < u.cacheReadTokens.getD 0 then some (.int (u.cacheReadTokens.getD 0)) else none :=
      (hfield _).trans rfl
    rw [Json.intField?, htold]
    by_cases hpos : 0 < u.cacheReadTokens.getD 0
    · rw [if_pos hpos]
      exact toInt64_eq_self h.read
    · rw [if_neg hpos]
      exact Int.le_antisymm h.read.1 (Int.not_lt.mp hpos)
  rw [ofReport, if_pos (show u.toGemini.isObject = true from rfl), hdialect]
  refine ⟨?_, ?_, ?_⟩
  · show less ((u.toGemini.intField? "promptTokenCount").getD 0) _ = _
    rw [hprompt, hcached]
    exact less_add h.input h.read
  · show (u.toGemini.intField? "candidatesTokenCount").getD 0 = _
    rw [intField?_of_field? ((hfield _).trans rfl)]
    exact toInt64_eq_self h.output
  · show (if 0 < (u.toGemini.intField? "cachedContentTokenCount").getD 0 then
      some ((u.toGemini.intField? "cachedContentTokenCount").getD 0) else none).getD 0 = _
    rw [hcached]
    by_cases hpos : 0 < u.cacheReadTokens.getD 0
    · rw [if_pos hpos]
      rfl
    · rw [if_neg hpos]
      exact Int.le_antisymm h.read.1 (Int.not_lt.mp hpos)

theorem agrees_writeAs (client : Dialect) : (ofReport (writeAs client u)).Agrees u := by
  cases client with
  | claude => exact agrees_toClaude h
  | openai => exact agrees_toOpenai h
  | gemini => exact agrees_toGemini h
  | responses => exact agrees_toResponses h

/-- A report of the Responses dialect tells the total itself. -/
theorem totalTokens_toResponses : (ofReport u.toResponses).totalTokens = u.totalTokens := by
  have hfield (key : Bytes) : u.toResponses.field? key = _ :=
    Json.field?_objectWith_of_nodup (by simp only [List.map_cons, List.map_nil]; decide) key
  refine totalTokens_ofReport rfl ((hfield _).trans rfl) ?_
  rw [intField?_of_field? ((hfield _).trans rfl)]
  obtain ⟨hlow, hhigh⟩ := h.total
  exact congrArg some (Word.toInt64_eq (by omega) (by omega))

/-! ## 5. Sums -/

theorem sumsOfReading_le : ∀ s ∈ sumsOfReading u, s ≤ 0x7FFFFFFFFFFFFFFF := by
  refine List.forall_mem_singleton.mpr ?_
  have hinput := h.input.2
  have houtput := h.output.2
  omega

theorem sumsOfWriting_le (client : Dialect) :
    ∀ s ∈ sumsOfWriting client u, s ≤ 0x7FFFFFFFFFFFFFFF := by
  have hinput := h.input.2
  have houtput := h.output.2
  have hread := h.read.2
  have hcount : IsCount (u.cachedTokens.getD 0) := h.cached_eq ▸ h.read
  have hcached := hcount.2
  cases client with
  | claude => exact List.forall_mem_nil _
  | responses => exact List.forall_mem_nil _
  | openai =>
    rw [sumsOfWriting, add_eq h.input hcount]
    exact List.forall_mem_cons.mpr ⟨by omega, List.forall_mem_singleton.mpr (by omega)⟩
  | gemini =>
    rw [sumsOfWriting, add_eq h.input h.read]
    exact List.forall_mem_cons.mpr ⟨by omega, List.forall_mem_singleton.mpr (by omega)⟩

end

/-- **A usage report that is written and read back.** Whatever dialect the counts were read from and
    whatever dialect they are written in, they are read back with the same input, the same output
    and the same cache reads, from the Responses dialect with the same total as well; and no sum
    formed on the way leaves the 64-bit words. -/
theorem ofReport_writeAs (dialect : ReportDialect) (client : Dialect) (report : Json)
    (h : Moderate report) :
    let u := readAs dialect report
    let again := ofReport (writeAs client u)
    again.inputTokens = u.inputTokens ∧ again.outputTokens = u.outputTokens ∧
      again.cacheReadTokens.getD 0 = u.cacheReadTokens.getD 0 ∧
      (client = .responses → again.totalTokens = u.totalTokens) ∧
      ∀ s ∈ sumsOfReading u ++ sumsOfWriting client u ++ sumsOfReading again,
        s ≤ 0x7FFFFFFFFFFFFFFF := by
  intro u again
  have hfair : u.Fair := fair_readAs h dialect
  have hagrees : again.Agrees u := agrees_writeAs hfair client
  refine ⟨hagrees.input, hagrees.output, hagrees.read, fun hclient => ?_, ?_⟩
  · subst hclient
    exact totalTokens_toResponses hfair
  · have hagain : sumsOfReading again = sumsOfReading u := by
      rw [sumsOfReading, hagrees.input, hagrees.output, sumsOfReading]
    intro s hs
    rw [hagain, List.mem_append, List.mem_append] at hs
    rcases hs with (hs | hs) | hs
    · exact sumsOfReading_le hfair s hs
    · exact sumsOfWriting_le hfair client s hs
    · exact sumsOfReading_le hfair s hs

/-- A chat completion that was mostly read from a cache: an OpenAI client is told the whole input,
    a client of the Responses dialect the rest only. The counts are read back the same. -/
theorem ofReport_writeAs_cached :
    let report : Json := .object [("prompt_tokens", .int 100), ("completion_tokens", .int 7),
      ("prompt_tokens_details", .object [("cached_tokens", .int 90)])]
    let u := readAs .openai report
    Moderate report ∧
      (u.toOpenai.intField? "prompt_tokens" = some 100 ∧ (ofReport u.toOpenai).inputTokens = 10) ∧
      u.toResponses.intField? "input_tokens" = some 10 ∧
      (ofReport u.toResponses).inputTokens = u.inputTokens ∧
      (ofReport u.toResponses).totalTokens = u.totalTokens := by
  intro report u
  have hmoderate : Moderate report := ⟨by decide +kernel, by decide +kernel⟩
  have hopenai := ofReport_writeAs .openai .openai report hmoderate
  have hresponses := ofReport_writeAs .openai .responses report hmoderate
  refine ⟨hmoderate, ⟨by decide +kernel, hopenai.1.trans (by decide +kernel)⟩, by decide +kernel,
    hresponses.1, hresponses.2.2.2.1 rfl⟩

end ChatRelay.Usage
