import ChatRelay.Identifier
import ChatRelay.Proofs.TextStates

/-!
# Lines that fail

Whatever a line holds, a transcoder fails on it only when the line reports an error, and then it
fails with the text of the report.

* `Chunk.ReportsError` -- which lines report an error, in terms of their bytes;
* `Transcoder.IsText` -- the INVARIANT: the strings that the transcoder holds are UTF-8;
* `Transcoder.Survives` -- what a transcoder does with any line and at the end;
* `Transcoder.FailsOnly` -- what it can fail with, whatever it holds;
* `Transcoder.fails_iff_reports` -- every transcoder that is reached survives.
-/

namespace ChatRelay

/-! ## 1. Lines that report an error -/

namespace Sse

/-- The payload of a data line, with or without the one space before it. -/
theorem payload?_eq_some_iff {line payload : Bytes} :
    payload? line = some payload ↔
      line = Bytes.ofString "data: " ++ payload ∨
        (line = Bytes.ofString "data:" ++ payload ∧ payload.head? ≠ some 0x20) := by
  constructor
  · intro h
    obtain ⟨hstart, h⟩ := Option.ite_none_right_eq_some.mp h
    obtain ⟨rest, rfl⟩ := List.isPrefixOf_iff_prefix.mp hstart
    have hrest : (Bytes.ofString "data:" ++ rest).drop 5 = rest := rfl
    rw [hrest] at h
    split at h
    · cases h
      exact .inl rfl
    · rename_i hspace
      cases h
      refine .inr ⟨rfl, fun hhead => ?_⟩
      obtain ⟨tail, rfl⟩ := List.head?_eq_some_iff.mp hhead
      exact hspace tail rfl
  · intro h
    obtain rfl | ⟨rfl, hhead⟩ := h
    · rfl
    · cases payload with
      | nil => rfl
      | cons b rest =>
        have hstart : (Bytes.ofString "data:" ++ b :: rest).startsWith "data:" = true := rfl
        have hrest : (Bytes.ofString "data:" ++ b :: rest).drop 5 = b :: rest := rfl
        rw [payload?, if_pos hstart, hrest]
        split
        · rename_i heq
          exact absurd (congrArg some (List.cons.inj heq).1) hhead
        · rfl

end Sse

namespace Chunk

/-- A line that reports an error: without the blanks around it, it is `data:` and a payload, with at
    most one space between them; and the payload is not the mark of the end, but an object whose
    `error` is present and not null. -/
def ReportsError (line : Bytes) (report : Json) : Prop :=
  ∃ payload fields,
    (line.trim = Bytes.ofString "data: " ++ payload ∨
      (line.trim = Bytes.ofString "data:" ++ payload ∧ payload.head? ≠ some 0x20)) ∧
    payload ≠ "[DONE]" ∧ Json.parse? payload = some (.obj fields) ∧
    (Json.obj fields).field? "error" = some report ∧ report ≠ .null

variable {line : Bytes} {report : Json}

theorem ofLine_eq_error_iff : ofLine line = .error report ↔ ReportsError line report := by
  unfold ofLine ReportsError
  simp only [← Sse.payload?_eq_some_iff]
  constructor
  · intro h
    split at h
    · cases h
    · rename_i payload hpayload
      split at h
      · cases h
      · rename_i hdone
        split at h
        · cases h
        · rename_i object hread
          obtain ⟨j, hparse, hj⟩ := Option.bind_eq_some_iff.mp hread
          obtain ⟨rfl, fields, rfl⟩ := Json.exists_obj_of_object? hj
          split at h
          · cases h
          · cases h
          · rename_i found hnull hfound
            cases h
            exact ⟨payload, fields, hpayload, hdone, hparse, hfound, fun heq => hnull heq⟩
  · intro h
    obtain ⟨payload, fields, hpayload, hdone, hparse, hfound, hnull⟩ := h
    have hread : (Json.parse? payload).bind Json.object? = some (.obj fields) := by
      rw [hparse]
      rfl
    rw [hpayload]
    dsimp only
    rw [if_neg hdone, hread]
    dsimp only
    rw [hfound]
    cases report with
    | null => exact absurd rfl hnull
    | _ => rfl

theorem reports_iff : Reports line ↔ ∃ report, ReportsError line report :=
  exists_congr fun _ => ofLine_eq_error_iff

/-- A report was read, so it is text. -/
theorem ReportsError.isText (h : ReportsError line report) : report.isText = true := by
  obtain ⟨payload, fields, -, -, hparse, hfound, -⟩ := h
  exact Json.isText_field? (Json.isText_of_parse? hparse) hfound

end Chunk

/-! ## 2. Any line -/

namespace Transcoder

/-- The strings that a transcoder holds back to write them later are UTF-8. -/
def IsText : Transcoder → Prop
  | passthrough _ => True
  | openaiToClaude s => s.IsText
  | geminiToClaude _ => True
  | openaiToGemini s => s.IsText
  | claudeToGemini s => s.IsText
  | openaiToReplies w => w.IsText
  | claudeToReplies s => s.IsText

/-- Whether a transcoder reads the lines, or passes them through. -/
def reads : Transcoder → Bool
  | passthrough _ => false
  | _ => true

/-- **What a transcoder does with any line and at the end**: it fails on a line that it reads when
    the line reports an error, and goes on otherwise. -/
structure Survives (t : Transcoder) : Prop where
  fails : t.reads = true → ∀ line report, Chunk.ReportsError line report →
    t.onLine line = .error (.reported report.render)
  goesOn : ∀ line, (t.reads = true → ¬ Chunk.Reports line) →
    ∃ step, t.onLine line = .ok step ∧ step.state.IsText
  ends : ∃ step, t.onEnd = .ok step ∧ step.state.IsText

section

variable {σ ε : Type} {render : ε → Except RelayError Bytes} {wrap : σ → Transcoder}
  {component : Bytes} {onChunk : σ → Json → Step σ ε} {onEnd : σ → Step σ ε}
  {good : σ → Prop} {isText : ε → Bool} {s : σ}

/-- A step with events of text is written. -/
theorem exists_write {step : Step σ ε} (h : step.Writes good isText)
    (hrender : ∀ e, isText e = true → ∃ text, render e = .ok text)
    (hgood : ∀ s, good s → (wrap s).IsText) :
    ∃ written, write render wrap step = .ok written ∧ written.state.IsText := by
  obtain ⟨events, hevents⟩ := mapM_eq_ok_of_forall fun e he => hrender e (h.events e he)
  exact ⟨_, write_eq_ok_iff.mpr ⟨events, hevents, rfl⟩, hgood _ h.state⟩

/-- **A transcoder whose steps keep its state text survives.** -/
theorem Typed.survives (ht : Typed wrap component onChunk onEnd render)
    (hk : Step.KeepsText good isText onChunk onEnd)
    (hrender : ∀ e, isText e = true → ∃ text, render e = .ok text)
    (hgood : ∀ s, good s → (wrap s).IsText) (hreads : (wrap s).reads = true) (hs : good s) :
    (wrap s).Survives where
  fails _ line report hreport := by
    rw [ht.onLine_eq, Step.onLine, Chunk.ofLine_eq_error_iff.mpr hreport]
    dsimp only
    rw [Json.dump_of_isText hreport.isText]
    rfl
  goesOn line hline := by
    have hquiet : ¬ Chunk.Reports line := hline hreads
    -- whatever the line carries, the step on it is one that brings text
    have hstep : ∃ step, Step.onLine component onChunk s line = .ok step ∧
        step.Writes good isText := by
      unfold Step.onLine
      cases hc : Chunk.ofLine line with
      | none => exact ⟨_, rfl, Step.writes_nil hs⟩
      | unreadable size => exact ⟨_, rfl, Step.writes_nil hs⟩
      | data object =>
        obtain ⟨payload, hparse⟩ := Chunk.exists_parse?_of_data hc
        exact ⟨_, rfl, hk.onChunk s object hs (Json.isText_of_parse? hparse)⟩
      | error report => exact absurd ⟨report, hc⟩ hquiet
    obtain ⟨step, hstep, hwrites⟩ := hstep
    rw [ht.onLine_eq, hstep]
    exact exists_write hwrites hrender hgood
  ends := by
    rw [ht.onEnd_eq]
    exact exists_write (hk.onEnd s hs) hrender hgood

end

variable {t s : Transcoder}

/-- **A transcoder that holds text survives.** -/
theorem IsText.survives (h : t.IsText) : t.Survives := by
  cases t with
  | passthrough s =>
    refine ⟨fun hreads => ?_, fun _ _ => ⟨_, rfl, trivial⟩, ⟨_, rfl, trivial⟩⟩
    cases hreads
  | openaiToClaude s =>
    exact typed_openaiToClaude.survives OpenAIToClaude.keepsText
      (fun _ => ClaudeEvent.exists_render) (fun _ hs => hs) rfl h
  | geminiToClaude s =>
    exact typed_geminiToClaude.survives GeminiToClaude.keepsText
      (fun _ => ClaudeEvent.exists_render) (fun _ hs => hs) rfl h
  | openaiToGemini s =>
    exact typed_openaiToGemini.survives OpenAIToGemini.keepsText
      (fun _ => GeminiChunk.exists_render) (fun _ hs => hs) rfl h
  | claudeToGemini s =>
    exact typed_claudeToGemini.survives ClaudeToGemini.keepsText
      (fun _ => GeminiChunk.exists_render) (fun _ hs => hs) rfl h
  | openaiToReplies w =>
    exact typed_openaiToReplies.survives ToReplies.OfOpenai.keepsText
      (fun _ => ReplyEvent.exists_render) (fun _ hs => hs) rfl h
  | claudeToReplies s =>
    exact typed_claudeToReplies.survives ToReplies.OfClaude.keepsText
      (fun _ => ReplyEvent.exists_render) (fun _ hs => hs) rfl h

/-! ## 3. What a transcoder fails with -/

/-- What a transcoder may fail with: a string that cannot be written, and on a line also the text of
    a report. -/
structure FailsOnly (t : Transcoder) : Prop where
  onLine : ∀ line e, t.onLine line = .error e → e = .wrongJsonType ∨ ∃ text, e = .reported text
  onEnd : ∀ e, t.onEnd = .error e → e = .wrongJsonType

section

variable {σ ε : Type} {render : ε → Except RelayError Bytes} {wrap : σ → Transcoder}
  {component : Bytes} {onChunk : σ → Json → Step σ ε} {onEnd : σ → Step σ ε} {s : σ}
  {e : RelayError}

theorem eq_wrongJsonType_of_write (hrender : FailsOnText render) {step : Step σ ε}
    (h : write render wrap step = .error e) : e = .wrongJsonType := by
  obtain h | ⟨texts, -, h⟩ := bind_eq_error_iff.mp h
  · obtain ⟨event, -, hevent⟩ := exists_mem_of_mapM_error h
    exact hrender event e hevent
  · cases h

theorem Typed.failsOnly (ht : Typed wrap component onChunk onEnd render)
    (hrender : FailsOnText render) : (wrap s).FailsOnly where
  onLine line e h := by
    rw [ht.onLine_eq] at h
    obtain h | ⟨step, -, h⟩ := bind_eq_error_iff.mp h
    · unfold Step.onLine at h
      split at h
      · cases h
      · cases h
      · cases h
      · obtain h | ⟨text, -, h⟩ := bind_eq_error_iff.mp h
        · exact .inl (Json.eq_wrongJsonType_of_dump h)
        · cases h
          exact .inr ⟨text, rfl⟩
    · exact .inl (eq_wrongJsonType_of_write hrender h)
  onEnd e h := by
    rw [ht.onEnd_eq] at h
    exact eq_wrongJsonType_of_write hrender h

end

/-- **No transcoder fails with anything else.** -/
theorem failsOnly (t : Transcoder) : t.FailsOnly := by
  cases t with
  | passthrough s =>
    refine ⟨fun _ _ h => ?_, fun _ h => ?_⟩
    · cases h
    · cases h
  | openaiToClaude s => exact typed_openaiToClaude.failsOnly ClaudeEvent.failsOnText
  | geminiToClaude s => exact typed_geminiToClaude.failsOnly ClaudeEvent.failsOnText
  | openaiToGemini s => exact typed_openaiToGemini.failsOnly GeminiChunk.failsOnText
  | claudeToGemini s => exact typed_claudeToGemini.failsOnly GeminiChunk.failsOnText
  | openaiToReplies w => exact typed_openaiToReplies.failsOnly ReplyEvent.failsOnText
  | claudeToReplies s => exact typed_claudeToReplies.failsOnly ReplyEvent.failsOnText

/-! ## 4. Transcoders that are reached -/

/-- The transcoders as they are made, with the model that was asked for. -/
inductive Fresh (model : Bytes) : Transcoder → Prop where
  | passthrough : Fresh model (passthrough {})
  | openaiToClaude : Fresh model (openaiToClaude {})
  | geminiToClaude : Fresh model (geminiToClaude {})
  | openaiToGemini : Fresh model (openaiToGemini {})
  | claudeToGemini : Fresh model (claudeToGemini {})
  | openaiToReplies (n : Nat) : Fresh model (openaiToReplies { id := Identifier.reply n, model })
  | claudeToReplies (n : Nat) :
      Fresh model (claudeToReplies { writer := { id := Identifier.reply n, model } })

/-- What came of a step: the transcoder after it, the events that it brought, and the error that it
    failed with. -/
structure Taken where
  transcoder : Transcoder
  events : List Bytes
  error : Option RelayError

/-- What came of a step of a transcoder. One that failed has brought nothing and changed nothing,
    and this is by the type of a step, not a theorem: whether a line reports an error is looked for
    first of all (`Step.onLine`), before an event is written and before the state is touched, so
    that there is nothing to take back. `fails_iff_reports` is that a transcoder that is reached
    fails at no other place. -/
def taken (t : Transcoder) : Except RelayError (Step Transcoder Bytes) → Taken
  | .ok step => ⟨step.state, step.events, none⟩
  | .error e => ⟨t, [], some e⟩

/-- What comes of a line. -/
def take (t : Transcoder) (line : Bytes) : Taken :=
  t.taken (t.onLine line)

/-- The transcoders that lines and ends lead to, whether the steps failed or not. -/
inductive Reaches (t : Transcoder) : Transcoder → Prop where
  | start : Reaches t t
  | line {s : Transcoder} (h : Reaches t s) (line : Bytes) : Reaches t (s.take line).transcoder
  | atEnd {s : Transcoder} (h : Reaches t s) : Reaches t (s.taken s.onEnd).transcoder

theorem Reaches.trans {u : Transcoder} (h : t.Reaches s) (h' : s.Reaches u) : t.Reaches u := by
  induction h' with
  | start => exact h
  | line _ line ih => exact ih.line line
  | atEnd _ ih => exact ih.atEnd

/-- A line that does not fail leads on. -/
theorem reaches_of_onLine {line : Bytes} {step : Step Transcoder Bytes}
    (h : t.onLine line = .ok step) : t.Reaches step.state := by
  have hline : t.Reaches (t.take line).transcoder := .line .start line
  rw [take, h] at hline
  exact hline

theorem Fresh.isText {model : Bytes} (h : Fresh model t) (hmodel : Utf8.valid model = true) :
    t.IsText := by
  have hid (n : Nat) : Utf8.valid (Identifier.reply n) = true :=
    Utf8.valid_append rfl (Bytes.printable_hex 32 n).ascii.valid
  cases h with
  | passthrough => trivial
  | openaiToClaude => exact OpenAIToClaude.isText_fresh
  | geminiToClaude => trivial
  | openaiToGemini => exact OpenAIToGemini.isText_fresh
  | claudeToGemini => exact ClaudeToGemini.isText_fresh
  | openaiToReplies n => exact ⟨hid n, hmodel, rfl⟩
  | claudeToReplies n => exact ⟨hid n, hmodel, rfl⟩

/-- The invariant on every transcoder that is reached. -/
theorem Reaches.isText (h : t.Reaches s) (ht : t.IsText) : s.IsText := by
  induction h with
  | start => exact ht
  | @line s _ line ih =>
    unfold take
    cases hstep : s.onLine line with
    | error e => exact ih
    | ok step =>
      have hquiet : s.reads = true → ¬ Chunk.Reports line := by
        intro hreads hreports
        obtain ⟨report, hreport⟩ := Chunk.reports_iff.mp hreports
        rw [ih.survives.fails hreads line report hreport] at hstep
        cases hstep
      obtain ⟨step', hstep', htext⟩ := ih.survives.goesOn line hquiet
      rw [hstep] at hstep'
      cases hstep'
      exact htext
  | @atEnd s _ ih =>
    obtain ⟨step, hstep, htext⟩ := ih.survives.ends
    rw [hstep]
    exact htext

/-- **A transcoder fails on the lines that report an error, and on no others.** Whatever has come
    before, and whatever bytes the line is of:

    * a transcoder that reads the lines fails exactly when the line reports an error; it fails with
      the text of the report, has brought nothing and is as it was;
    * the one that passes lines through never fails. -/
theorem fails_iff_reports {model : Bytes} (hmodel : Utf8.valid model = true) (ht : Fresh model t)
    (hs : t.Reaches s) (line : Bytes) :
    (s.reads = true →
      ((s.take line).error.isSome = true ↔ ∃ report, Chunk.ReportsError line report) ∧
        ∀ report, Chunk.ReportsError line report → ∃ text, report.dump = .ok text ∧
          s.take line = ⟨s, [], some (.reported text)⟩) ∧
      (s.reads = false → (s.take line).error = none) := by
  have hsurvives := (hs.isText (ht.isText hmodel)).survives
  have hfails (hreads : s.reads = true) (report : Json) (h : Chunk.ReportsError line report) :
      s.take line = ⟨s, [], some (.reported report.render)⟩ := by
    rw [take, hsurvives.fails hreads line report h]
    rfl
  have hgoesOn (hquiet : s.reads = true → ¬ Chunk.Reports line) :
      (s.take line).error = none := by
    obtain ⟨step, hstep, -⟩ := hsurvives.goesOn line hquiet
    rw [take, hstep]
    rfl
  refine ⟨fun hreads => ⟨⟨fun herror => ?_, fun h => ?_⟩, fun report h => ?_⟩, fun hreads => ?_⟩
  · by_cases hreports : Chunk.Reports line
    · exact Chunk.reports_iff.mp hreports
    · rw [hgoesOn fun _ => hreports] at herror
      cases herror
  · obtain ⟨report, h⟩ := h
    rw [hfails hreads report h]
    rfl
  · exact ⟨_, Json.dump_of_isText h.isText, hfails hreads report h⟩
  · exact hgoesOn fun h => by rw [hreads] at h; cases h

/-- A stream for a client of the Responses dialect, after a first text: a report of an error fails
    and an oddly typed chunk does not; a transcoder that passes lines through lets the report
    pass. -/
theorem fails_iff_reports_after_text :
    let t := openaiToReplies { id := Identifier.reply 0, model := "m" }
    let s := (t.take (Bytes.ofString
      "data: \x7b\"choices\":[\x7b\"delta\":\x7b\"content\":\"a\"\x7d\x7d]\x7d")).transcoder
    let failing := Bytes.ofString " data:\x7b\"error\":\"x\"\x7d\r"
    let odd := Bytes.ofString "data: \x7b\"choices\":7,\"error\":null\x7d"
    s.take failing = ⟨s, [], some (.reported "\"x\"")⟩ ∧ (s.take odd).error = none ∧
      ((passthrough {}).take failing).error = none := by
  intro t s failing odd
  have hmodel : Utf8.valid "m" = true := by decide
  have hs : t.Reaches s := .line .start _
  have hreads : s.reads = true := by decide +kernel
  have hreport : Chunk.ReportsError failing (.str "x") :=
    ⟨"\x7b\"error\":\"x\"\x7d", [("error", .str "x")], .inr (by decide), by decide,
      by decide +kernel, by decide, by decide⟩
  have hquiet : ¬ Chunk.Reports odd := Chunk.not_reports_of_data? (by decide +kernel)
  obtain ⟨text, htext, hfailing⟩ :=
    ((fails_iff_reports hmodel (.openaiToReplies 0) hs failing).1 hreads).2 _ hreport
  obtain ⟨hiff, -⟩ := (fails_iff_reports hmodel (.openaiToReplies 0) hs odd).1 hreads
  refine ⟨?_, ?_, (fails_iff_reports hmodel .passthrough .start failing).2 rfl⟩
  · obtain rfl : Bytes.ofString "\"x\"" = text := Except.ok.inj htext
    exact hfailing
  · rw [← Chunk.reports_iff] at hiff
    exact Option.not_isSome_iff_eq_none.mp fun h => hquiet (hiff.mp h)

end Transcoder

end ChatRelay
