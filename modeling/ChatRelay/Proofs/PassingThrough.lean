import ChatRelay.Proofs.Endings

/-!
# A stream that is passed through

The lines of the stream are cut at its blank lines, and each run of lines between them goes on as
one event (`Passthrough.eventOf`). At the end the run so far goes on as well, whether it was closed
or not.

* `runs`, `wholeRuns`, `cutRun` -- the runs of lines, those that a blank line closes, and the lines
  behind the last blank line;
* `Transcoder.feed_holding` -- the INVARIANT: what is held are the lines behind the last blank line,
  and what was brought are the closed runs;
* `passes_faithfully` -- a body that ends well goes on run by run, and what goes on in this form
  goes on unchanged;
* `cut_run_is_passed` -- of a body that fails, the run that the failure cut short goes on too.
-/

namespace ChatRelay

/-! ## 1. Lines as text -/

namespace Bytes

/-- Lines as they are written, each with its line feed. -/
def unlines (lines : List Bytes) : Bytes :=
  lines.flatMap (· ++ [0x0A])

theorem unlines_cons (line : Bytes) (lines : List Bytes) :
    unlines (line :: lines) = line ++ 0x0A :: unlines lines := by
  simp [unlines]

theorem unlines_append (lines more : List Bytes) :
    unlines (lines ++ more) = unlines lines ++ unlines more :=
  List.flatMap_append

/-- A line that is read back as it was written. -/
structure Written (line : Bytes) : Prop where
  no_newline : 0x0A ∉ line
  no_return : line.getLast? ≠ some 0x0D

theorem written_nil : Written [] :=
  ⟨List.not_mem_nil, by decide⟩

/-- Lines are read back from their text. -/
theorem bodyLines_unlines {lines : List Bytes} (h : ∀ line ∈ lines, Written line) :
    bodyLines (unlines lines) true = lines := by
  induction lines with
  | nil => rfl
  | cons line lines ih =>
    obtain ⟨hline, hrest⟩ := List.forall_mem_cons.mp h
    have hwhole : withoutReturn line = line := by
      rw [← LineReader.chop_eq, LineReader.chop, if_neg hline.no_return]
    rw [unlines_cons, bodyLines_append_newline hline.no_newline, hwhole, ih hrest]

variable {limit : Nat} {data u v : Bytes}

theorem SegmentsFit.append (hu : 0x0A ∉ u) (hlength : u.length ≤ limit) (hv : SegmentsFit limit v) :
    SegmentsFit limit (u ++ 0x0A :: v) := by
  unfold SegmentsFit
  rw [splitAtByte_append_sep hu]
  exact List.forall_mem_cons.mpr ⟨hlength, hv⟩

theorem segmentsFit_unlines {lines : List Bytes}
    (h : ∀ line ∈ lines, 0x0A ∉ line ∧ line.length ≤ limit) :
    SegmentsFit limit (unlines lines) := by
  induction lines with
  | nil => exact List.forall_mem_singleton.mpr (Nat.zero_le limit)
  | cons line lines ih =>
    obtain ⟨⟨hnewline, hlength⟩, hrest⟩ := List.forall_mem_cons.mp h
    rw [unlines_cons]
    exact .append hnewline hlength (ih hrest)

theorem notMem_of_mem_splitAtByte {sep : UInt8} {s piece : Bytes}
    (h : piece ∈ splitAtByte sep s) : sep ∉ piece := by
  induction s generalizing piece with
  | nil =>
    rw [List.mem_singleton.mp h]
    exact List.not_mem_nil
  | cons b s ih =>
    rw [splitAtByte] at h
    split at h
    · rcases List.mem_cons.mp h with rfl | h
      · exact List.not_mem_nil
      · exact ih h
    · rename_i hb
      split at h
      · rw [List.mem_singleton.mp h, List.mem_singleton]
        exact fun e => hb e.symm
      · rename_i first rest hs
        rcases List.mem_cons.mp h with rfl | h
        · have hfirst : sep ∉ first := ih (hs ▸ List.mem_cons_self)
          exact fun hmem => (List.mem_cons.mp hmem).elim (fun e => hb e.symm) hfirst
        · exact ih (hs ▸ List.mem_cons_of_mem first h)

/-- A line of a body holds no line feed, and it is no longer than its segment. -/
theorem of_mem_bodyLines {whole : Bool} {line : Bytes} (h : line ∈ bodyLines data whole)
    (hfit : SegmentsFit limit data) : 0x0A ∉ line ∧ line.length ≤ limit := by
  obtain ⟨segment, hsegment, rfl⟩ := List.mem_map.mp h
  have hmem : segment ∈ splitAtByte 0x0A data := by
    rcases List.mem_append.mp hsegment with hmem | hmem
    · exact List.dropLast_subset _ hmem
    · split at hmem
      · exact List.mem_of_mem_getLast? (Option.mem_toList.mp (List.mem_filter.mp hmem).1)
      · cases hmem
  have hnewline := notMem_of_mem_splitAtByte hmem
  have hlength := hfit segment hmem
  rw [← LineReader.chop_eq, LineReader.chop]
  split
  · refine ⟨fun hlast => hnewline (List.dropLast_subset _ hlast), ?_⟩
    rw [List.length_dropLast]
    omega
  · exact ⟨hnewline, hlength⟩

end Bytes

open Bytes

namespace Passthrough

/-! ## 2. Runs of lines -/

/-- The pieces between the blank lines, with the lines behind the last one. -/
def pieces (lines : List Bytes) : List (List Bytes) :=
  lines.splitOnP List.isEmpty

/-- **The maximal runs of lines that are not blank.** -/
def runs (lines : List Bytes) : List (List Bytes) :=
  (pieces lines).filter fun run => !run.isEmpty

/-- The runs that a blank line closes. -/
def wholeRuns (lines : List Bytes) : List (List Bytes) :=
  (pieces lines).dropLast.filter fun run => !run.isEmpty

/-- The lines behind the last blank line: a run that no blank line closes, or nothing. -/
def cutRun (lines : List Bytes) : List Bytes :=
  (pieces lines).getLastD []

/-- The event of a run: its lines, closed by a blank one. -/
def eventOf (run : List Bytes) : Bytes :=
  unlines run ++ [0x0A]

/-- Lines of which none is blank. -/
def Dense (run : List Bytes) : Prop :=
  ∀ line ∈ run, line ≠ []

variable {run lines : List Bytes}

theorem dense_nil : Dense [] :=
  List.forall_mem_nil _

theorem Dense.append_line (h : Dense run) {line : Bytes} (hline : line ≠ []) :
    Dense (run ++ [line]) :=
  List.forall_mem_append.mpr ⟨h, List.forall_mem_singleton.mpr hline⟩

/-- Lines without a blank one are one piece. -/
theorem Dense.pieces_eq (h : Dense run) : pieces run = [run] :=
  List.splitOnP_eq_singleton fun line hline => List.isEmpty_eq_false_iff.mpr (h line hline)

/-- A blank line ends the first piece. -/
theorem Dense.pieces_append_blank (h : Dense run) (lines : List Bytes) :
    pieces (run ++ [] :: lines) = run :: pieces lines :=
  List.splitOnP_append_cons_of_forall_mem
    (fun line hline => List.isEmpty_eq_false_iff.mpr (h line hline)) [] rfl lines

theorem pieces_ne_nil (lines : List Bytes) : pieces lines ≠ [] :=
  List.splitOnP_ne_nil _ _

theorem runs_eq (lines : List Bytes) :
    runs lines = wholeRuns lines ++ [cutRun lines].filter fun run => !run.isEmpty := by
  unfold runs wholeRuns cutRun
  rw [← List.filter_append, List.getLastD_eq_getLast?,
    List.getLast?_eq_some_getLast (pieces_ne_nil lines), Option.getD_some,
    List.dropLast_concat_getLast]

theorem Dense.wholeRuns_eq (h : Dense run) : wholeRuns run = [] := by
  rw [wholeRuns, h.pieces_eq]
  rfl

theorem Dense.cutRun_eq (h : Dense run) : cutRun run = run := by
  rw [cutRun, h.pieces_eq]
  rfl

theorem Dense.wholeRuns_append_blank (h : Dense run) (lines : List Bytes) :
    wholeRuns (run ++ [] :: lines) =
      ([run].filter fun run => !run.isEmpty) ++ wholeRuns lines := by
  rw [wholeRuns, h.pieces_append_blank, List.dropLast_cons_of_ne_nil (pieces_ne_nil lines),
    ← List.singleton_append, List.filter_append]
  rfl

theorem Dense.cutRun_append_blank (h : Dense run) (lines : List Bytes) :
    cutRun (run ++ [] :: lines) = cutRun lines := by
  rw [cutRun, h.pieces_append_blank, cutRun, List.getLastD_eq_getLast?,
    List.getLastD_eq_getLast?, List.getLast?_cons_of_ne_nil (pieces_ne_nil lines)]

/-- No line of a piece is blank, and all of them are lines of the text. -/
theorem of_mem_pieces (h : Dense run) {piece : List Bytes}
    (hpiece : piece ∈ pieces (run ++ lines)) : Dense piece ∧ piece ⊆ run ++ lines := by
  induction lines generalizing run with
  | nil =>
    rw [List.append_nil, h.pieces_eq, List.mem_singleton] at hpiece
    subst hpiece
    exact ⟨h, List.subset_append_left piece []⟩
  | cons line lines ih =>
    by_cases hline : line = []
    · subst hline
      rw [h.pieces_append_blank] at hpiece
      rcases List.mem_cons.mp hpiece with rfl | hpiece
      · exact ⟨h, List.subset_append_left piece _⟩
      · obtain ⟨hdense, hsub⟩ := ih dense_nil hpiece
        refine ⟨hdense, fun l hl => ?_⟩
        exact List.mem_append_right run (List.mem_cons_of_mem [] (hsub hl))
    · rw [List.append_cons] at hpiece ⊢
      exact ih (h.append_line hline) hpiece

theorem of_mem_runs (h : run ∈ runs lines) : run ≠ [] ∧ Dense run ∧ run ⊆ lines := by
  obtain ⟨hmem, hne⟩ := List.mem_filter.mp h
  obtain ⟨hdense, hsub⟩ := of_mem_pieces dense_nil hmem
  exact ⟨by simpa using hne, hdense, hsub⟩

/-- Runs with a blank line behind each are the runs of these lines. -/
theorem runs_flatMap {rs : List (List Bytes)} (h : ∀ run ∈ rs, run ≠ [] ∧ Dense run) :
    runs (rs.flatMap (· ++ [[]])) = rs := by
  induction rs with
  | nil => rfl
  | cons run rs ih =>
    obtain ⟨⟨hne, hdense⟩, hrest⟩ := List.forall_mem_cons.mp h
    rw [List.flatMap_cons, List.append_assoc, List.singleton_append, runs,
      hdense.pieces_append_blank, List.filter_cons_of_pos (by simpa using hne)]
    exact congrArg (run :: ·) (ih hrest)

/-- Nothing is behind the last blank line when the last line is blank, or when there is none. -/
theorem cutRun_eq_nil_iff (h : Dense run) :
    cutRun (run ++ lines) = [] ↔ ∀ line ∈ (run ++ lines).getLast?, line = [] := by
  induction lines generalizing run with
  | nil =>
    rw [List.append_nil, h.cutRun_eq]
    constructor
    · rintro rfl
      exact fun _ hline => absurd hline (by simp)
    · intro hlast
      cases hl : run.getLast? with
      | none => exact List.getLast?_eq_none_iff.mp hl
      | some line => exact absurd (hlast line hl) (h line (List.mem_of_mem_getLast? hl))
  | cons line lines ih =>
    by_cases hline : line = []
    · subst hline
      rw [h.cutRun_append_blank]
      have hrest := ih dense_nil
      rw [List.nil_append] at hrest
      rw [hrest, List.getLast?_append, List.getLast?_cons]
      cases lines.getLast? with
      | none => simp
      | some last => simp
    · rw [List.append_cons]
      exact ih (h.append_line hline)

/-! ## 3. What is passed -/

/-- The state that holds back these lines. -/
def holding (run : List Bytes) (flag : Bool) : State where
  held := unlines run
  toolUseStop := flag

theorem flush_holding (run : List Bytes) (flag : Bool) :
    flush (holding run flag) =
      { state := holding [] flag
        events := ([run].filter fun run => !run.isEmpty).map eventOf } := by
  unfold flush
  cases run with
  | nil => rfl
  | cons line run =>
    rw [if_neg (by simp [holding, unlines_cons])]
    rfl

end Passthrough

namespace Transcoder

open Passthrough

variable {run : List Bytes} {flag : Bool}

theorem onEnd_holding (run : List Bytes) (flag : Bool) :
    (passthrough (holding run flag)).onEnd = .ok
      { state := passthrough (holding [] flag)
        events := ([run].filter fun run => !run.isEmpty).map eventOf } := by
  show Except.ok ((flush (holding run flag)).mapState passthrough) = _
  rw [flush_holding]
  rfl

/-- A blank line does what the end of the stream does. -/
theorem onLine_blank (run : List Bytes) (flag : Bool) :
    (passthrough (holding run flag)).onLine [] = (passthrough (holding run flag)).onEnd := rfl

theorem onLine_holding {line : Bytes} (h : line ≠ []) (run : List Bytes) (flag : Bool) :
    (passthrough (holding run flag)).onLine line = .ok
      { state := passthrough (holding (run ++ [line]) (flag || marksToolUseStop line)) } := by
  have hstep : Passthrough.onLine (holding run flag) line =
      { state := holding (run ++ [line]) (flag || marksToolUseStop line) } := by
    rw [Passthrough.onLine, if_neg (by simpa using h)]
    simp [holding, Bytes.unlines]
  show Except.ok ((Passthrough.onLine (holding run flag) line).mapState passthrough) = _
  rw [hstep]
  rfl

/-- **The invariant of a stream that is passed through**: what is held are the lines behind the last
    blank line, what was brought are the events of the closed runs, and a tool-use stop has gone by
    when a line marks one. -/
theorem feed_holding (h : Dense run) (flag : Bool) (lines : List Bytes) :
    (passthrough (holding run flag)).feed lines = .ok
      { state := passthrough (holding (cutRun (run ++ lines)) (flag || lines.any marksToolUseStop))
        events := (wholeRuns (run ++ lines)).map eventOf } := by
  induction lines generalizing run flag with
  | nil =>
    rw [List.append_nil, h.cutRun_eq, h.wholeRuns_eq, List.any_nil, Bool.or_false]
    rfl
  | cons line lines ih =>
    refine Step.feed_cons_iff.mpr ?_
    by_cases hline : line = []
    · subst hline
      refine ⟨_, (onLine_blank run flag).trans (onEnd_holding run flag), _,
        ih dense_nil flag, ?_⟩
      rw [h.cutRun_append_blank, h.wholeRuns_append_blank, List.map_append]
      rfl
    · refine ⟨_, onLine_holding hline run flag, _,
        ih (h.append_line hline) (flag || marksToolUseStop line), ?_⟩
      rw [← List.append_cons, List.any_cons, ← Bool.or_assoc]
      rfl

/-- What a stream that is passed through comes to: its runs, one event for each. -/
theorem delivery_passthrough (lines : List Bytes) (lost : Option Disconnect) :
    (passthrough {}).delivery lines lost =
      { events := (runs lines).map eventOf
        error := (passthrough (holding [] (lines.any marksToolUseStop))).endError lost } := by
  have hfed := feed_holding dense_nil false lines
  rw [List.nil_append, Bool.false_or] at hfed
  have hdelivery := delivery_of_feed hfed lost
  rw [delivery, onEnd_holding] at hdelivery
  rw [runs_eq, List.map_append]
  exact hdelivery

end Transcoder

namespace Passthrough

/-! ## 4. Bodies that end well -/

/-- A run that is read back as it was written. -/
structure Clean (run : List Bytes) : Prop where
  ne_nil : run ≠ []
  dense : Dense run
  written : ∀ line ∈ run, Written line

variable {rs : List (List Bytes)} {limit : Nat}

/-- Events are the text of their runs with a blank line behind each. -/
theorem flatten_events (rs : List (List Bytes)) :
    (rs.map eventOf).flatten = unlines (rs.flatMap (· ++ [[]])) := by
  induction rs with
  | nil => rfl
  | cons run rs ih =>
    rw [List.map_cons, List.flatten_cons, ih, List.flatMap_cons, unlines_append, unlines_append]
    rfl

/-- **The runs of events are the runs that these were made of.** -/
theorem runs_of_events (h : ∀ run ∈ rs, Clean run) :
    runs (bodyLines (rs.map eventOf).flatten true) = rs := by
  have hwritten : ∀ line ∈ rs.flatMap (· ++ [[]]), Written line := by
    intro line hline
    obtain ⟨run, hrun, hline⟩ := List.mem_flatMap.mp hline
    rcases List.mem_append.mp hline with hline | hline
    · exact (h run hrun).written line hline
    · rw [List.mem_singleton.mp hline]
      exact written_nil
  rw [flatten_events, bodyLines_unlines hwritten]
  exact runs_flatMap fun run hrun => ⟨(h run hrun).ne_nil, (h run hrun).dense⟩

theorem segmentsFit_events (h : ∀ run ∈ rs, ∀ line ∈ run, 0x0A ∉ line ∧ line.length ≤ limit) :
    SegmentsFit limit (rs.map eventOf).flatten := by
  rw [flatten_events]
  refine segmentsFit_unlines fun line hline => ?_
  obtain ⟨run, hrun, hline⟩ := List.mem_flatMap.mp hline
  rcases List.mem_append.mp hline with hline | hline
  · exact h run hrun line hline
  · rw [List.mem_singleton.mp hline]
    exact ⟨List.not_mem_nil, Nat.zero_le limit⟩

/-- A body that ends well comes to its runs. -/
theorem comesTo_runs {data : Bytes} {options : Options}
    (hfit : SegmentsFit options.maxLineBytes data) (chunkSize : Nat) :
    (Run.start { rest := data, chunkSize } (.passthrough {}) options).ComesTo
      { events := (runs (bodyLines data true)).map eventOf } := by
  have hcomes : (Run.start { rest := data, chunkSize } (.passthrough {}) options).ComesTo
      ((Transcoder.passthrough {}).delivery (bodyLines data true) none) :=
    Run.comesTo_lines _ rfl hfit _
  rw [Transcoder.delivery_passthrough] at hcomes
  exact hcomes

/-- **A stream is passed through faithfully.** For every body that ends well, of which no segment is
    over the limit, and whatever the pieces in which it arrives:

    * the events are the maximal runs of its lines that are not blank, each line with a line feed
      and each run with one more, and there is no error;
    * if no line of them ends in a carriage return, streaming these events gives the same events;
    * if the body is of such events already, the events together are the body. -/
theorem passes_faithfully (data : Bytes) (chunkSize : Nat) (options : Options)
    (hfit : SegmentsFit options.maxLineBytes data) :
    let rs := runs (bodyLines data true)
    let events := rs.map eventOf
    (Run.start { rest := data, chunkSize } (.passthrough {}) options).ComesTo { events } ∧
      ((∀ run ∈ rs, ∀ line ∈ run, line.getLast? ≠ some 0x0D) → ∀ chunkSize,
        (Run.start { rest := events.flatten, chunkSize } (.passthrough {}) options).ComesTo
          { events }) ∧
      ∀ given : List (List Bytes), (∀ run ∈ given, Clean run) →
        data = (given.map eventOf).flatten → events.flatten = data := by
  intro rs events
  refine ⟨comesTo_runs hfit chunkSize, fun hreturn chunkSize => ?_, fun given hclean hdata => ?_⟩
  · have hline (run : List Bytes) (hrun : run ∈ rs) (line : Bytes) (hline : line ∈ run) :
        0x0A ∉ line ∧ line.length ≤ options.maxLineBytes :=
      of_mem_bodyLines ((of_mem_runs hrun).2.2 hline) hfit
    have hclean (run : List Bytes) (hrun : run ∈ rs) : Clean run :=
      { ne_nil := (of_mem_runs hrun).1
        dense := (of_mem_runs hrun).2.1
        written := fun line hmem => ⟨(hline run hrun line hmem).1, hreturn run hrun line hmem⟩ }
    have hcomes := comesTo_runs (segmentsFit_events hline) chunkSize
    rw [runs_of_events hclean] at hcomes
    exact hcomes
  · have hruns : rs = given := by
      show runs (bodyLines data true) = given
      rw [hdata, runs_of_events hclean]
    rw [hdata, ← hruns]

/-- Two events, the first of two lines, with carriage returns, too many blank lines and none at the
    end; read three bytes at a time. -/
theorem passes_faithfully_with_returns :
    let data := Bytes.ofString "\r\nevent: a\r\ndata: 1\r\n\r\n\n\ndata: 2"
    let events := [Bytes.ofString "event: a\ndata: 1\n\n", Bytes.ofString "data: 2\n\n"]
    let options : Options := { Options.default with maxLineBytes := 9 }
    SegmentsFit options.maxLineBytes data ∧
      (Run.start { rest := data, chunkSize := 3 } (.passthrough {}) options).ComesTo { events } ∧
      (Run.start { rest := events.flatten, chunkSize := 2 } (.passthrough {}) options).ComesTo
        { events } ∧
      SegmentsFit options.maxLineBytes events.flatten ∧
      ((runs (bodyLines events.flatten true)).map eventOf).flatten = events.flatten := by
  intro data events options
  have hfit : SegmentsFit options.maxLineBytes data := by
    unfold SegmentsFit
    decide +kernel
  have hevents : (runs (bodyLines data true)).map eventOf = events := by decide +kernel
  obtain ⟨hcomes, hagain, -⟩ := passes_faithfully data 3 options hfit
  rw [hevents] at hcomes hagain
  -- what was passed is of events already
  have hfitAgain : SegmentsFit options.maxLineBytes events.flatten := by
    unfold SegmentsFit
    decide +kernel
  have hlines : ∀ run ∈ runs (bodyLines data true), ∀ line ∈ run,
      0x0A ∉ line ∧ line.getLast? ≠ some 0x0D := by decide +kernel
  have hclean (run : List Bytes) (hrun : run ∈ runs (bodyLines data true)) : Clean run :=
    ⟨(of_mem_runs hrun).1, (of_mem_runs hrun).2.1,
      fun line hline => ⟨(hlines run hrun line hline).1, (hlines run hrun line hline).2⟩⟩
  have hsame := (passes_faithfully events.flatten 2 options hfitAgain).2.2 _ hclean
    (by rw [hevents])
  exact ⟨hfit, hcomes, hagain (by decide +kernel) 2, hfitAgain, hsame⟩

/-! ## 5. Bodies that fail -/

/-- **When only whole events are passed of a body that fails.** What was closed by a blank line is
    passed, and behind it the lines of the run that the failure cut short, if any of them came
    through whole. So only whole events are passed exactly when the last line that came through is
    blank, or when none came through. -/
theorem cut_run_is_passed (data : Bytes) (chunkSize : Nat) (message : Bytes) (options : Options)
    (hfit : SegmentsFit options.maxLineBytes data) :
    let lines := bodyLines data false
    ∃ d, (Run.start { rest := data, chunkSize, failure := some message } (.passthrough {})
        options).ComesTo d ∧
      d.events = (wholeRuns lines).map eventOf ++
        (if cutRun lines = [] then [] else [eventOf (cutRun lines)]) ∧
      (d.events = (wholeRuns lines).map eventOf ↔ ∀ line ∈ lines.getLast?, line = []) := by
  intro lines
  have hcut : cutRun lines = [] ↔ ∀ line ∈ lines.getLast?, line = [] :=
    cutRun_eq_nil_iff dense_nil
  refine ⟨_, Run.comesTo_lines _ rfl hfit _, ?_⟩
  rw [Transcoder.delivery_passthrough, ← hcut]
  show (runs lines).map eventOf = _ ∧ ((runs lines).map eventOf = _ ↔ _)
  rw [runs_eq, List.map_append]
  by_cases h : cutRun lines = []
  · simp [h]
  · simp [h]

/-- An event in two lines, of which the failure cuts off the second: the first one is passed as an
    event. -/
theorem cut_run_is_passed_of_first_line :
    let data := Bytes.ofString "event: ping\ndata: \x7b\"type\":\"pi"
    let options := Options.default
    SegmentsFit options.maxLineBytes data ∧
      ∃ d, (Run.start { rest := data, failure := some "connection reset by peer" }
          (.passthrough {}) options).ComesTo d ∧ d.events = [Bytes.ofString "event: ping\n\n"] := by
  intro data options
  have hfit : SegmentsFit options.maxLineBytes data := by
    unfold SegmentsFit
    decide +kernel
  obtain ⟨d, hcomes, hevents, -⟩ := cut_run_is_passed data 0 "connection reset by peer" options hfit
  refine ⟨hfit, d, hcomes, hevents.trans ?_⟩
  decide +kernel

/-- In that stream the consumer gets an event that is no whole event of the body. -/
theorem not_only_whole_events :
    let data := Bytes.ofString "event: ping\ndata: \x7b\"type\":\"pi"
    ¬ ∀ r, (Run.start { rest := data, failure := some "connection reset by peer" }
        (.passthrough {}) Options.default).Reaches r → r.Ended →
      ∀ event ∈ r.received, ∃ run ∈ wholeRuns (bodyLines data false), event = eventOf run := by
  intro data hclaim
  have hfit : SegmentsFit Options.default.maxLineBytes data := by
    unfold SegmentsFit
    decide +kernel
  have hcomes := Run.comesTo_lines { rest := data, failure := some "connection reset by peer" } rfl
    hfit (.passthrough {})
  obtain ⟨r, hr, hend⟩ := hcomes.ends _ .start
  obtain ⟨hreceived, -⟩ := hcomes.outcome r hr hend
  rw [Transcoder.delivery_passthrough] at hreceived
  have hevents : r.received = [Bytes.ofString "event: ping\n\n"] := by
    rw [hreceived]
    decide +kernel
  have hwhole : wholeRuns (bodyLines data false) = [] := by decide +kernel
  obtain ⟨run, hrun, -⟩ := hclaim r hr hend _ (by rw [hevents]; exact List.mem_cons_self)
  rw [hwhole] at hrun
  cases hrun

end Passthrough

end ChatRelay
