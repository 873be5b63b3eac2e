import ChatRelay.Proofs.Fallible
import ChatRelay.Transcoder.Basic

/-!
# Runs of a transcoder

A transcoder on many lines. `Step.feed` takes lines in turn and fails with the first step that does;
`Step.overChunks` takes chunks, which cannot fail. What holds of the events before they are written
follows from the steps on chunks alone:

* `feed_agrees` -- a run on lines is a run on the chunks they carry;
* `feed_write_iff` -- a run that writes its events is one that brings them, then written;
* `written_of_feed`, `exists_written` -- both together, for whole streams of a transcoder whose
  steps are known (`Typed`);
* `overChunks_induction` -- what every chunk keeps, all chunks keep.
-/

namespace ChatRelay

/-! ## 1. Chunks of lines -/

namespace Chunk

/-- The object that a chunk carries, unless it reports an error. -/
def data? : Chunk → Option Json
  | .data object => some object
  | _ => Option.none

/-- Whether a line reports an error. -/
def Reports (line : Bytes) : Prop :=
  ∃ report, ofLine line = .error report

/-- A line that carries an object reports no error. -/
theorem not_reports_of_data? {line : Bytes} (h : (ofLine line).data?.isSome = true) :
    ¬ Reports line := by
  intro hreports
  obtain ⟨report, hreport⟩ := hreports
  rw [hreport] at h
  cases h

/-- The objects that lines carry. -/
def objects (lines : List Bytes) : List Json :=
  lines.flatMap fun line => (ofLine line).data?.toList

end Chunk

/-! ## 2. Runs on lines and on chunks -/

namespace Step

variable {σ ε : Type}

/-- The steps on lines in turn. -/
def feed (onLine : σ → Bytes → Except RelayError (Step σ ε)) :
    σ → List Bytes → Except RelayError (Step σ ε)
  | s, [] => .ok { state := s }
  | s, line :: lines => do
    let first ← onLine s line
    let rest ← feed onLine first.state lines
    .ok (first.andThen fun _ => rest)

/-- The steps on chunks in turn. -/
def overChunks (onChunk : σ → Json → Step σ ε) : σ → List Json → Step σ ε
  | s, [] => { state := s }
  | s, chunk :: chunks => (onChunk s chunk).andThen fun s => overChunks onChunk s chunks

/-- The same state and the same events, whatever the log. -/
def Agrees (a b : Step σ ε) : Prop :=
  a.state = b.state ∧ a.events = b.events

theorem Agrees.symm {a b : Step σ ε} (h : a.Agrees b) : b.Agrees a :=
  ⟨h.1.symm, h.2.symm⟩

theorem Agrees.trans {a b c : Step σ ε} (h : a.Agrees b) (h' : b.Agrees c) : a.Agrees c :=
  ⟨h.1.trans h'.1, h.2.trans h'.2⟩

theorem Agrees.andThen {first second rest : Step σ ε} (h : first.Agrees second)
    (next : σ → Step σ ε) (hrest : rest.Agrees (next second.state)) :
    (first.andThen fun _ => rest).Agrees (second.andThen next) := by
  refine ⟨hrest.1, ?_⟩
  rw [events_andThen, events_andThen, h.2, hrest.2]

/-- The steps on two lists of chunks are the steps on the first, then on the second. -/
theorem overChunks_append (onChunk : σ → Json → Step σ ε) (s : σ) (a b : List Json) :
    (overChunks onChunk s (a ++ b)).Agrees
      ((overChunks onChunk s a).andThen fun s => overChunks onChunk s b) := by
  induction a generalizing s with
  | nil => exact ⟨rfl, rfl⟩
  | cons chunk a ih =>
    obtain ⟨hstate, hevents⟩ := ih (onChunk s chunk).state
    refine ⟨hstate, ?_⟩
    show _ ++ _ = (_ ++ _) ++ _
    rw [List.append_assoc]
    exact congrArg _ hevents

/-- Chunks that change nothing and bring nothing can be left out. -/
theorem overChunks_filter {onChunk : σ → Json → Step σ ε} {p : Json → Bool}
    (h : ∀ s chunk, p chunk = false → (onChunk s chunk).Agrees { state := s }) (s : σ)
    (chunks : List Json) :
    (overChunks onChunk s chunks).Agrees (overChunks onChunk s (chunks.filter p)) := by
  induction chunks generalizing s with
  | nil => exact ⟨rfl, rfl⟩
  | cons chunk chunks ih =>
    cases hp : p chunk with
    | true =>
      obtain ⟨hstate, hevents⟩ := ih (onChunk s chunk).state
      rw [List.filter_cons_of_pos hp]
      exact ⟨hstate, congrArg ((onChunk s chunk).events ++ ·) hevents⟩
    | false =>
      obtain ⟨hstate, hevents⟩ := h s chunk hp
      rw [List.filter_cons_of_neg (by rw [hp]; decide), overChunks]
      refine ⟨?_, ?_⟩
      · rw [state_andThen, hstate]
        exact (ih s).1
      · rw [events_andThen, hevents, hstate]
        exact (ih s).2

/-- What every chunk keeps, and what holds of steps in a row as well, holds of all chunks. -/
theorem overChunks_induction {onChunk : σ → Json → Step σ ε} {leads : σ → List ε → σ → Prop}
    (hnil : ∀ s, leads s [] s)
    (htrans : ∀ {s s' s'' xs ys}, leads s xs s' → leads s' ys s'' → leads s (xs ++ ys) s'')
    (hchunk : ∀ s chunk, leads s (onChunk s chunk).events (onChunk s chunk).state)
    (s : σ) (chunks : List Json) :
    leads s (overChunks onChunk s chunks).events (overChunks onChunk s chunks).state := by
  induction chunks generalizing s with
  | nil => exact hnil s
  | cons chunk chunks ih => exact htrans (hchunk s chunk) (ih (onChunk s chunk).state)

/-- The events of a whole stream: for the chunks of its lines in turn, and then at its end. -/
def wholeEvents (onChunk : σ → Json → Step σ ε) (onEnd : σ → Step σ ε) (s : σ)
    (lines : List Bytes) : List ε :=
  let run := overChunks onChunk s (Chunk.objects lines)
  run.events ++ (onEnd run.state).events

/-- A whole stream by its last chunk. -/
theorem wholeEvents_of_last {onChunk : σ → Json → Step σ ε} {onEnd : σ → Step σ ε} {s : σ}
    {lines : List Bytes} {before : List Json} {last : Json}
    (h : Chunk.objects lines = before ++ [last]) :
    wholeEvents onChunk onEnd s lines =
      (overChunks onChunk s before).events ++
        ((onChunk (overChunks onChunk s before).state last).events ++
          (onEnd (onChunk (overChunks onChunk s before).state last).state).events) := by
  obtain ⟨hstate, hevents⟩ := overChunks_append onChunk s before [last]
  rw [wholeEvents, h, hstate, hevents, events_andThen, state_andThen, overChunks, events_andThen,
    overChunks, List.append_nil, List.append_assoc]
  rfl

theorem feed_cons_iff {onLine : σ → Bytes → Except RelayError (Step σ ε)} {s : σ} {line : Bytes}
    {lines : List Bytes} {step : Step σ ε} :
    feed onLine s (line :: lines) = .ok step ↔
      ∃ first, onLine s line = .ok first ∧ ∃ rest, feed onLine first.state lines = .ok rest ∧
        first.andThen (fun _ => rest) = step := by
  simp only [feed, bind_eq_ok_iff, Except.ok.injEq]

variable {component : Bytes} {onChunk : σ → Json → Step σ ε} {s : σ}

/-- A line that reports no error brings what its chunk brings. -/
theorem onLine_agrees {line : Bytes} (h : ¬ Chunk.Reports line) :
    ∃ step, onLine component onChunk s line = .ok step ∧
      step.Agrees (overChunks onChunk s (Chunk.ofLine line).data?.toList) := by
  unfold onLine
  cases hc : Chunk.ofLine line with
  | none => exact ⟨_, rfl, rfl, rfl⟩
  | unreadable size => exact ⟨_, rfl, rfl, rfl⟩
  | data object => exact ⟨_, rfl, rfl, (List.append_nil _).symm⟩
  | error report => exact absurd ⟨report, hc⟩ h

theorem not_reports_of_onLine {line : Bytes} {step : Step σ ε}
    (h : onLine component onChunk s line = .ok step) : ¬ Chunk.Reports line := by
  intro hreports
  obtain ⟨report, hreport⟩ := hreports
  simp only [onLine, hreport, bind_eq_ok_iff] at h
  obtain ⟨text, -, h⟩ := h
  cases h

/-- **A run on lines is the run on their chunks**: it succeeds as long as no line reports an
    error. -/
theorem feed_agrees {lines : List Bytes} (h : ∀ line ∈ lines, ¬ Chunk.Reports line) :
    ∃ step, feed (onLine component onChunk) s lines = .ok step ∧
      step.Agrees (overChunks onChunk s (Chunk.objects lines)) := by
  induction lines generalizing s with
  | nil => exact ⟨_, rfl, rfl, rfl⟩
  | cons line lines ih =>
    obtain ⟨first, hfirst, hagree⟩ : ∃ first, onLine component onChunk s line = .ok first ∧
        first.Agrees (overChunks onChunk s (Chunk.ofLine line).data?.toList) :=
      onLine_agrees (h line List.mem_cons_self)
    obtain ⟨rest, hrest, hagreeRest⟩ :=
      ih (s := first.state) fun l hl => h l (List.mem_cons_of_mem line hl)
    refine ⟨_, feed_cons_iff.mpr ⟨first, hfirst, rest, hrest, rfl⟩, ?_⟩
    rw [hagree.1] at hagreeRest
    have hboth := hagree.andThen (fun s => overChunks onChunk s (Chunk.objects lines)) hagreeRest
    exact hboth.trans (overChunks_append onChunk s _ (Chunk.objects lines)).symm

theorem not_reports_of_feed {lines : List Bytes} {step : Step σ ε}
    (h : feed (onLine component onChunk) s lines = .ok step) :
    ∀ line ∈ lines, ¬ Chunk.Reports line := by
  induction lines generalizing s step with
  | nil => exact fun _ hl => absurd hl List.not_mem_nil
  | cons line lines ih =>
    obtain ⟨first, hfirst, rest, hrest, -⟩ := feed_cons_iff.mp h
    intro l hl
    rcases List.mem_cons.mp hl with rfl | hl
    · exact not_reports_of_onLine hfirst
    · exact ih hrest l hl

end Step

/-! ## 3. Runs that write their events -/

namespace Transcoder

/-- The steps on lines in turn, with their events written. -/
def feed : Transcoder → List Bytes → Except RelayError (Step Transcoder Bytes) :=
  Step.feed onLine

section

variable {σ ε : Type} {render : ε → Except RelayError Bytes} {wrap : σ → Transcoder}

theorem write_eq_ok_iff {step : Step σ ε} {written : Step Transcoder Bytes} :
    write render wrap step = .ok written ↔
      ∃ events, step.events.mapM render = .ok events ∧
        ⟨wrap step.state, events, step.log⟩ = written := by
  rw [write, bind_eq_ok_iff]
  simp only [Except.ok.injEq]

/-- **A run that writes its events** is a run that brings them, then written. -/
theorem feed_write_iff {typed : σ → Bytes → Except RelayError (Step σ ε)}
    (honLine : ∀ s line, (wrap s).onLine line = typed s line >>= write render wrap)
    {s : σ} {lines : List Bytes} {written : Step Transcoder Bytes} :
    (wrap s).feed lines = .ok written ↔
      ∃ step, Step.feed typed s lines = .ok step ∧ write render wrap step = .ok written := by
  induction lines generalizing s written with
  | nil =>
    constructor
    · intro h
      exact ⟨_, rfl, h⟩
    · intro h
      obtain ⟨step, hstep, h⟩ := h
      cases hstep
      exact h
  | cons line lines ih =>
    rw [feed, Step.feed_cons_iff]
    constructor
    · intro h
      obtain ⟨first, hfirst, rest, hrest, rfl⟩ := h
      rw [honLine, bind_eq_ok_iff] at hfirst
      obtain ⟨typedFirst, htyped, hwrite⟩ := hfirst
      obtain ⟨texts, htexts, rfl⟩ := write_eq_ok_iff.mp hwrite
      obtain ⟨typedRest, htypedRest, hwriteRest⟩ := ih.mp hrest
      obtain ⟨more, hmore, rfl⟩ := write_eq_ok_iff.mp hwriteRest
      refine ⟨_, Step.feed_cons_iff.mpr ⟨typedFirst, htyped, typedRest, htypedRest, rfl⟩, ?_⟩
      exact write_eq_ok_iff.mpr
        ⟨_, mapM_append_eq_ok_iff.mpr ⟨texts, htexts, more, hmore, rfl⟩, rfl⟩
    · intro h
      obtain ⟨step, hstep, hwrite⟩ := h
      obtain ⟨typedFirst, htyped, typedRest, htypedRest, rfl⟩ := Step.feed_cons_iff.mp hstep
      obtain ⟨events, hevents, rfl⟩ := write_eq_ok_iff.mp hwrite
      obtain ⟨texts, htexts, more, hmore, rfl⟩ := mapM_append_eq_ok_iff.mp hevents
      have hfirst : write render wrap typedFirst =
          .ok ⟨wrap typedFirst.state, texts, typedFirst.log⟩ :=
        write_eq_ok_iff.mpr ⟨texts, htexts, rfl⟩
      have hrest : write render wrap typedRest =
          .ok ⟨wrap typedRest.state, more, typedRest.log⟩ :=
        write_eq_ok_iff.mpr ⟨more, hmore, rfl⟩
      have honFirst := honLine s line
      rw [htyped] at honFirst
      exact ⟨_, honFirst.trans hfirst, _, ih.mpr ⟨typedRest, htypedRest, hrest⟩, rfl⟩

/-! ## 4. Whole streams -/

/-- The transcoder with this state brings events by these steps, and writes them. -/
structure Typed (wrap : σ → Transcoder) (component : Bytes) (onChunk : σ → Json → Step σ ε)
    (onEnd : σ → Step σ ε) (render : ε → Except RelayError Bytes) : Prop where
  onLine_eq : ∀ s line, (wrap s).onLine line =
    Step.onLine component onChunk s line >>= write render wrap
  onEnd_eq : ∀ s, (wrap s).onEnd = write render wrap (onEnd s)

theorem typed_openaiToClaude : Typed openaiToClaude OpenAIToClaude.component OpenAIToClaude.onChunk
    OpenAIToClaude.onEnd ClaudeEvent.render := ⟨fun _ _ => rfl, fun _ => rfl⟩

theorem typed_geminiToClaude : Typed geminiToClaude GeminiToClaude.component GeminiToClaude.onChunk
    GeminiToClaude.onEnd ClaudeEvent.render := ⟨fun _ _ => rfl, fun _ => rfl⟩

theorem typed_openaiToGemini : Typed openaiToGemini OpenAIToGemini.component OpenAIToGemini.onChunk
    OpenAIToGemini.onEnd GeminiChunk.render := ⟨fun _ _ => rfl, fun _ => rfl⟩

theorem typed_claudeToGemini : Typed claudeToGemini ClaudeToGemini.component ClaudeToGemini.onChunk
    ClaudeToGemini.onEnd GeminiChunk.render := ⟨fun _ _ => rfl, fun _ => rfl⟩

theorem typed_openaiToReplies : Typed openaiToReplies ToReplies.OfOpenai.component
    ToReplies.OfOpenai.onChunk ToReplies.OfOpenai.onEnd ReplyEvent.render :=
  ⟨fun _ _ => rfl, fun _ => rfl⟩

theorem typed_claudeToReplies : Typed claudeToReplies ToReplies.OfClaude.component
    ToReplies.OfClaude.onChunk ToReplies.OfClaude.onEnd ReplyEvent.render :=
  ⟨fun _ _ => rfl, fun _ => rfl⟩

variable {component : Bytes} {onChunk : σ → Json → Step σ ε} {onEnd : σ → Step σ ε} {s : σ}
  {lines : List Bytes}

/-- **What a stream has brought** when all its lines passed: the events of its chunks, and the state
    that these lead to. -/
theorem run_of_feed (h : Typed wrap component onChunk onEnd render)
    {fed : Step Transcoder Bytes} (hfed : (wrap s).feed lines = .ok fed) :
    (Step.overChunks onChunk s (Chunk.objects lines)).events.mapM render = .ok fed.events ∧
      fed.state = wrap (Step.overChunks onChunk s (Chunk.objects lines)).state := by
  obtain ⟨step, hstep, hwrite⟩ := (feed_write_iff h.onLine_eq).mp hfed
  obtain ⟨texts, htexts, rfl⟩ := write_eq_ok_iff.mp hwrite
  obtain ⟨step', hstep', hstate, hevents⟩ :
      ∃ step', Step.feed (Step.onLine component onChunk) s lines = .ok step' ∧
        step'.Agrees (Step.overChunks onChunk s (Chunk.objects lines)) :=
    Step.feed_agrees (Step.not_reports_of_feed hstep)
  obtain rfl : step = step' := Except.ok.inj (hstep.symm.trans hstep')
  rw [← hstate, ← hevents]
  exact ⟨htexts, rfl⟩

/-- **What was written for a stream** whose lines all passed: the events of its chunks and of its
    end, provided that those of the end can be written. -/
theorem written_of_feed (h : Typed wrap component onChunk onEnd render)
    (hlast : ∀ s, ∀ e ∈ (onEnd s).events, ∃ text, render e = .ok text)
    {fed : Step Transcoder Bytes} (hfed : (wrap s).feed lines = .ok fed) :
    ∃ last, fed.state.onEnd = .ok last ∧
      (Step.wholeEvents onChunk onEnd s lines).mapM render = .ok (fed.events ++ last.events) := by
  obtain ⟨hevents, hstate⟩ := run_of_feed h hfed
  obtain ⟨ends, hends⟩ :=
    mapM_eq_ok_of_forall (hlast (Step.overChunks onChunk s (Chunk.objects lines)).state)
  have honEnd : fed.state.onEnd = write render wrap (onEnd _) := hstate ▸ h.onEnd_eq _
  refine ⟨⟨_, ends, _⟩, honEnd.trans (write_eq_ok_iff.mpr ⟨ends, hends, rfl⟩), ?_⟩
  exact mapM_append_eq_ok_iff.mpr ⟨_, hevents, ends, hends, rfl⟩

/-- **A stream of lines that report no error is written as a whole**, provided that its events can
    be written. -/
theorem exists_written (h : Typed wrap component onChunk onEnd render)
    (hlast : ∀ s, ∀ e ∈ (onEnd s).events, ∃ text, render e = .ok text)
    (hlines : ∀ line ∈ lines, ¬ Chunk.Reports line)
    (hwrite : ∀ e ∈ (Step.overChunks onChunk s (Chunk.objects lines)).events,
      ∃ text, render e = .ok text) :
    ∃ fed, (wrap s).feed lines = .ok fed ∧ ∃ last, fed.state.onEnd = .ok last ∧
      (Step.wholeEvents onChunk onEnd s lines).mapM render = .ok (fed.events ++ last.events) := by
  obtain ⟨step, hstep, -, hevents⟩ :
      ∃ step, Step.feed (Step.onLine component onChunk) s lines = .ok step ∧
        step.Agrees (Step.overChunks onChunk s (Chunk.objects lines)) := Step.feed_agrees hlines
  rw [← hevents] at hwrite
  obtain ⟨texts, htexts⟩ := mapM_eq_ok_of_forall hwrite
  have hfed : (wrap s).feed lines = .ok ⟨wrap step.state, texts, step.log⟩ :=
    (feed_write_iff h.onLine_eq).mpr ⟨step, hstep, write_eq_ok_iff.mpr ⟨texts, htexts, rfl⟩⟩
  exact ⟨_, hfed, written_of_feed h hlast hfed⟩

end

end Transcoder

end ChatRelay
