import Mathlib.Data.List.Forall2
import ChatRelay.Proofs.Endings
import ChatRelay.Proofs.ObliviousSteps

/-!
# What the log tells of a stream

Two streams whose bodies have the same lines but for payload write the same to the log, except for
one entry: a stream that ends because a line reports an error shows the report.

* `AgreeButForReports` -- two logs of which only the reports differ;
* `Plan.log` -- what a producer writes when nobody cancels;
* `Bytes.SameLines` -- bodies with alike lines; `LineReader.Paired` -- the INVARIANT of two readers
  of such bodies, which find their lines, their ends and their failures together;
* `Plan.akin_ofBody` -- the logs of the plans for the two bodies agree;
* `Run.Owes.log_eq` -- the INVARIANT of a run: what is in the log and what the plan will write;
* `Run.logs_agree_but_for_reports` -- so much for every order of steps and every threshold, and
  `Run.report_shown` for the entry that differs.
-/

namespace ChatRelay

/-! ## 1. Logs that agree but for reports -/

/-- The same error, or each of them the text of a report. -/
def SameError (error error' : Option RelayError) : Prop :=
  error' = error ∨
    ∃ text text', error = some (.reported text) ∧ error' = some (.reported text')

/-- What the log shows of an error that a line reported. -/
def reportEntries : Option RelayError → List LogEntry
  | some (.reported text) =>
    [.warning Plan.component
      (Bytes.ofString "stream terminated: " ++ (RelayError.reported text).message)]
  | _ => []

/-- **Logs that agree but for reports**, of two streams that end with these errors: what stands
    before the reports is the same. -/
structure AgreeButForReports (log log' : List LogEntry) (error error' : Option RelayError) :
    Prop where
  log_eq : ∃ shared, log = shared ++ reportEntries error ∧ log' = shared ++ reportEntries error'
  error : SameError error error'

/-! ## 2. The log of a plan -/

namespace Plan

/-- What a plan writes to the log when nobody cancels. -/
def log : Plan → List LogEntry
  | done => []
  | note entry next => entry :: next.log
  | push _ _ next => next.log
  | read _ next => next.log
  | test _ next => next.log
  | publish _ next => next.log

theorem log_notes (entries : List LogEntry) (next : Plan) :
    (notes entries next).log = entries ++ next.log := by
  induction entries with
  | nil => rfl
  | cons entry entries ih => exact congrArg (entry :: ·) ih

theorem log_pushes (events : List Bytes) (lines : Nat) (next : Plan) :
    (pushes events lines next).log = next.log := by
  induction events with
  | nil => rfl
  | cons event events ih => exact ih

theorem log_ofStep (step : Step Transcoder Bytes) (lines : Nat) (next : Plan) :
    (ofStep step lines next).log = step.log ++ next.log := by
  rw [ofStep, log_pushes, log_notes]

/-- Plans whose logs agree but for reports. -/
def Akin (p p' : Plan) : Prop :=
  AgreeButForReports p.log p'.log p.delivery.error p'.delivery.error

variable {p p' : Plan}

theorem akin_self (h : reportEntries p.delivery.error = []) : Akin p p := by
  refine ⟨⟨p.log, ?_, ?_⟩, .inl rfl⟩ <;> rw [h, List.append_nil]

/-- Nobody closes the body. -/
theorem Akin.read {closed closed' : Plan} (h : Akin p p') :
    Akin (read closed p) (read closed' p') := h

theorem Akin.ofStep (h : Akin p p') {R : Transcoder → Transcoder → Prop}
    {a b : Step Transcoder Bytes} (hstep : a.Akin R b) (lines : Nat) :
    Akin (ofStep a lines p) (ofStep b lines p') := by
  obtain ⟨⟨shared, hlog, hlog'⟩, herror⟩ := h
  have hkept (step : Step Transcoder Bytes) (next : Plan) :
      (Plan.ofStep step lines next).delivery.error = next.delivery.error := by
    rw [delivery_ofStep]
    rfl
  refine ⟨⟨a.log ++ shared, ?_, ?_⟩, ?_⟩
  · rw [hkept, log_ofStep, hlog, List.append_assoc]
  · rw [hkept, log_ofStep, hlog', hstep.log_eq, List.append_assoc]
  · rw [hkept, hkept]
    exact herror

/-- A stream that fails notes why, and that entry is the report if there is one. -/
theorem akin_fail (e : RelayError) : Akin (fail e) (fail e) := by
  cases e with
  | reported text => exact ⟨⟨[], rfl, rfl⟩, .inl rfl⟩
  | _ => exact akin_self rfl

theorem akin_fail_reported (text text' : Bytes) :
    Akin (fail (.reported text)) (fail (.reported text')) :=
  ⟨⟨[], rfl, rfl⟩, .inr ⟨text, text', rfl, rfl⟩⟩

/-- What follows a step of the transcoder. -/
def afterStep (step : Except RelayError (Step Transcoder Bytes)) (lines : Nat)
    (next : Transcoder → Plan) : Plan :=
  match step with
  | .error e => fail e
  | .ok step => ofStep step lines (next step.state)

/-- **Steps that come to the same** and plans that go on akin. -/
theorem akin_afterStep {R : Transcoder → Transcoder → Prop}
    {x x' : Except RelayError (Step Transcoder Bytes)} (h : Transcoder.SameOutcome R x x')
    (next next' : Transcoder → Plan) (hnext : ∀ {t t'}, R t t' → Akin (next t) (next' t'))
    (lines : Nat) : Akin (afterStep x lines next) (afterStep x' lines next') := by
  cases h with
  | passes h => exact (hnext h.state).ofStep h lines
  | fails e => exact akin_fail e
  | reports text text' => exact akin_fail_reported text text'

variable {t t' : Transcoder}

/-- The verdict on a failed read depends on the tool-use stop alone. -/
theorem akin_verdict (h : t.toolUseStop = t'.toolUseStop) (lines : Nat) (d : Disconnect) :
    Akin (verdict t lines d) (verdict t' lines d) := by
  have heq : verdict t' lines d = verdict t lines d := by rw [verdict, verdict, h]
  rw [heq]
  refine akin_self ?_
  rw [delivery_verdict, Transcoder.endError, Option.bind_some]
  split <;> rfl

theorem akin_ending (h : t.Akin t') (lines : Nat) (failure : Option Disconnect) :
    Akin (ending t lines failure) (ending t' lines failure) := by
  cases failure with
  | none =>
    exact akin_afterStep h.onEnd (fun _ => done) (fun _ => done) (fun _ => akin_self rfl) lines
  | some d =>
    exact akin_afterStep h.onEnd (verdict · lines d) (verdict · lines d)
      (fun hstop => akin_verdict hstop lines d) lines

/-- A last line is one more line, and the end follows. -/
theorem akin_lastLine (h : t.Akin t') {line line' : Bytes} (hline : Bytes.Alike line line')
    (lines : Nat) : Akin (ofTail (.ok (some line)) t lines) (ofTail (.ok (some line')) t' lines) :=
  akin_afterStep (h.onLine hline) (ending · (lines + 1) none) (ending · (lines + 1) none)
    (fun h => akin_ending h (lines + 1) none) (lines + 1)

end Plan

/-! ## 3. Bodies -/

namespace Bytes

/-- **Bodies with the same lines but for payload.** -/
def SameLines (data data' : Bytes) : Prop :=
  List.Forall₂ Alike (splitAtByte 0x0A data) (splitAtByte 0x0A data')

variable {data data' u u' v v' p p' r r' : Bytes}

theorem Alike.append_left (hu : 0x22 ∉ u) (h : Alike v v') : Alike (u ++ v) (u ++ v') := by
  induction u with
  | nil => exact h
  | cons b u ih =>
    have hb : b ≠ 0x22 := fun e => hu (e ▸ List.mem_cons_self)
    exact .byte hb (ih fun hmem => hu (List.mem_cons_of_mem b hmem))

theorem isColon_plain : IsColon (ofString ":") :=
  ⟨[], [], rfl, nofun, nofun⟩

/-- A body has no line feed, or a first one. -/
theorem splitAtByte_cases (sep : UInt8) (data : Bytes) :
    (sep ∉ data ∧ splitAtByte sep data = [data]) ∨
      ∃ u v, data = u ++ sep :: v ∧ sep ∉ u ∧ splitAtByte sep data = u :: splitAtByte sep v := by
  by_cases h : sep ∈ data
  · obtain ⟨u, v, rfl, hu⟩ := List.eq_append_cons_of_mem h
    exact .inr ⟨u, v, rfl, hu, splitAtByte_append_sep hu v⟩
  · exact .inl ⟨h, splitAtByte_of_notMem h⟩

/-- A line, and what is behind it. -/
theorem sameLines_line_iff (hu : 0x0A ∉ u) (hu' : 0x0A ∉ u') :
    SameLines (u ++ 0x0A :: v) (u' ++ 0x0A :: v') ↔ Alike u u' ∧ SameLines v v' := by
  unfold SameLines
  rw [splitAtByte_append_sep hu, splitAtByte_append_sep hu', List.forall₂_cons]

/-- A tail without a line feed. -/
theorem sameLines_tail_iff (hu : 0x0A ∉ u) (hu' : 0x0A ∉ u') : SameLines u u' ↔ Alike u u' := by
  unfold SameLines
  rw [splitAtByte_of_notMem hu, splitAtByte_of_notMem hu', List.forall₂_cons]
  exact and_iff_left .nil

namespace SameLines

theorem symm (h : SameLines data data') : SameLines data' data :=
  List.Forall₂.flip (h.imp fun _ _ ha => ha.symm)

/-- The first line feed is at the same place in both. -/
theorem exists_of_newline (hu : 0x0A ∉ u) (h : SameLines (u ++ 0x0A :: v) data') :
    ∃ u' v', data' = u' ++ 0x0A :: v' ∧ 0x0A ∉ u' ∧ Alike u u' ∧ SameLines v v' := by
  obtain ⟨-, hsplit⟩ | ⟨u', v', rfl, hu', -⟩ := splitAtByte_cases 0x0A data'
  · unfold SameLines at h
    rw [splitAtByte_append_sep hu, hsplit, List.forall₂_cons] at h
    exact absurd (List.forall₂_nil_right_iff.mp h.2) (splitAtByte_ne_nil _ v)
  · exact ⟨u', v', rfl, hu', (sameLines_line_iff hu hu').mp h⟩

theorem newline_mem (h : SameLines data data') (hmem : 0x0A ∈ data) : 0x0A ∈ data' := by
  obtain ⟨u, v, rfl, hu⟩ := List.eq_append_cons_of_mem hmem
  obtain ⟨u', v', rfl, -⟩ := h.exists_of_newline hu
  exact List.mem_append_right u' List.mem_cons_self

theorem length_eq {data data' : Bytes} (h : SameLines data data') : data'.length = data.length := by
  by_cases hmem : 0x0A ∈ data
  · obtain ⟨u, v, hdata, hu⟩ := List.eq_append_cons_of_mem hmem
    rw [hdata] at h
    obtain ⟨u', v', rfl, -, hline, hrest⟩ := h.exists_of_newline hu
    have hlt : v.length < data.length := by
      rw [hdata, List.length_append, List.length_cons]
      omega
    have hlength : v'.length = v.length := length_eq hrest
    rw [hdata, List.length_append, List.length_append, List.length_cons, List.length_cons,
      hline.length_eq, hlength]
  · have hmem' : 0x0A ∉ data' := fun hmem' => hmem (h.symm.newline_mem hmem')
    exact ((sameLines_tail_iff hmem hmem').mp h).length_eq
termination_by data.length

/-- What has been read of both has a line feed when one of them has. -/
theorem newline_mem_of_read (h : SameLines (p ++ r) (p' ++ r')) (hlength : p'.length = p.length)
    (hmem : 0x0A ∈ p) : 0x0A ∈ p' := by
  obtain ⟨u, v, rfl, hu⟩ := List.eq_append_cons_of_mem hmem
  rw [List.append_assoc, List.cons_append] at h
  obtain ⟨u', v', heq, -, hline, -⟩ := h.exists_of_newline hu
  -- its first line feed stands where that of the other does, and so far both have been read
  have hlt : u'.length < p'.length := by
    rw [hline.length_eq, hlength, List.length_append, List.length_cons]
    omega
  have hat : (p' ++ r')[u'.length]? = some 0x0A := by
    rw [heq, List.getElem?_append_right (Nat.le_refl _), Nat.sub_self]
    rfl
  rw [List.getElem?_append_left hlt] at hat
  exact List.mem_of_getElem? hat

end SameLines

end Bytes

/-! ## 4. Readers of such bodies -/

/-- A read that brings bytes brings as many as it may. -/
theorem Body.length_of_read {b b' : Body} {x : UInt8} {xs : Bytes}
    (h : b.read = (.bytes (x :: xs), b')) : (x :: xs).length = min b.pieceSize b.rest.length := by
  unfold read at h
  split at h
  · cases h
  · split at h
    · split at h <;> cases h
    · rw [Prod.mk.injEq, ReadOutcome.bytes.injEq] at h
      rw [← h.1, List.length_take]

namespace LineReader

/-- **The invariant on two readers of bodies with the same lines**: they have read as much, and what
    they hold and what is still to come has the same lines. -/
structure Paired (reader reader' : LineReader) (body body' : Body) : Prop where
  ready : reader.Ready
  ready' : reader'.Ready
  no_failure : reader.failure = none
  no_failure' : reader'.failure = none
  bodyOpen : body.closed = false
  bodyOpen' : body'.closed = false
  limit_eq : reader'.limit = reader.limit
  chunkSize_eq : body'.chunkSize = body.chunkSize
  failure_eq : body'.failure = body.failure
  length_eq : reader'.pending.length = reader.pending.length
  sameLines : Bytes.SameLines (reader.pending ++ body.rest) (reader'.pending ++ body'.rest)

namespace Paired

variable {reader reader' next : LineReader} {body body' : Body}

theorem newline_mem (h : Paired reader reader' body body') :
    0x0A ∈ reader.pending ↔ 0x0A ∈ reader'.pending :=
  ⟨h.sameLines.newline_mem_of_read h.length_eq,
    h.sameLines.symm.newline_mem_of_read h.length_eq.symm⟩

/-- They find their lines together, and these are alike. -/
theorem scan_line {content : Bytes} (h : Paired reader reader' body body')
    (hscan : reader.scan = .line content next) :
    ∃ content' next', reader'.scan = .line content' next' ∧ Bytes.Alike content content' ∧
      Paired next next' body body' := by
  obtain ⟨hready, hlimit, hfail, segment, hno, hpend, rfl⟩ := LineReader.scan_line h.ready hscan
  have hmem' := h.newline_mem.mp (newline_mem_of_scan_line h.ready hscan)
  cases hscan' : reader'.scan with
  | line content' next' =>
    obtain ⟨hready', hlimit', hfail', segment', hno', hpend', rfl⟩ :=
      LineReader.scan_line h.ready' hscan'
    have hsame := h.sameLines
    have hlength := h.length_eq
    rw [hpend, hpend', List.append_assoc, List.append_assoc, List.cons_append,
      List.cons_append] at hsame
    obtain ⟨hline, hrest⟩ := (Bytes.sameLines_line_iff hno hno').mp hsame
    rw [hpend, hpend', List.length_append, List.length_append, hline.length_eq, List.length_cons,
      List.length_cons] at hlength
    exact ⟨_, next', rfl, hline.withoutReturn, hready, hready', hfail.trans h.no_failure,
      hfail'.trans h.no_failure', h.bodyOpen, h.bodyOpen', by rw [hlimit, hlimit', h.limit_eq],
      h.chunkSize_eq, h.failure_eq, by omega, hrest⟩
  | overLimit next' => exact absurd hmem' (LineReader.scan_overLimit h.ready' hscan').1
  | hungry next' =>
    obtain ⟨-, -, -, -, hno', -⟩ := LineReader.scan_hungry h.ready' hscan'
    exact absurd hmem' hno'

/-- They give up together. -/
theorem scan_overLimit (h : Paired reader reader' body body')
    (hscan : reader.scan = .overLimit next) : ∃ next', reader'.scan = .overLimit next' := by
  obtain ⟨hno, hlt⟩ := LineReader.scan_overLimit h.ready hscan
  cases hscan' : reader'.scan with
  | line content' next' =>
    exact absurd (h.newline_mem.mpr (newline_mem_of_scan_line h.ready' hscan')) hno
  | overLimit next' => exact ⟨next', rfl⟩
  | hungry next' =>
    obtain ⟨-, -, -, -, -, hle⟩ := LineReader.scan_hungry h.ready' hscan'
    rw [h.limit_eq, h.length_eq] at hle
    omega

/-- They need more together. -/
theorem scan_hungry (h : Paired reader reader' body body') (hscan : reader.scan = .hungry next) :
    ∃ next', reader'.scan = .hungry next' ∧ Paired next next' body body' ∧ 0x0A ∉ next.pending := by
  obtain ⟨hready, hlimit, hfail, hpend, hno, hle⟩ := LineReader.scan_hungry h.ready hscan
  cases hscan' : reader'.scan with
  | line content' next' =>
    exact absurd (h.newline_mem.mpr (newline_mem_of_scan_line h.ready' hscan')) hno
  | overLimit next' =>
    have hlt := (LineReader.scan_overLimit h.ready' hscan').2
    rw [h.limit_eq, h.length_eq] at hlt
    omega
  | hungry next' =>
    obtain ⟨hready', hlimit', hfail', hpend', -, -⟩ := LineReader.scan_hungry h.ready' hscan'
    refine ⟨next', rfl, ⟨hready, hready', hfail.trans h.no_failure, hfail'.trans h.no_failure',
      h.bodyOpen, h.bodyOpen', ?_, h.chunkSize_eq, h.failure_eq, ?_, ?_⟩, ?_⟩
    · rw [hlimit, hlimit', h.limit_eq]
    · rw [hpend, hpend', h.length_eq]
    · rw [hpend, hpend']
      exact h.sameLines
    · rw [hpend]
      exact hno

/-- As much is still to come of both bodies. -/
theorem length_rest (h : Paired reader reader' body body') :
    body'.rest.length = body.rest.length := by
  have hall := h.sameLines.length_eq
  rw [List.length_append, List.length_append, h.length_eq] at hall
  omega

theorem rest_eq_nil (h : Paired reader reader' body body') (hend : body.rest = []) :
    body'.rest = [] := by
  have hlengths := h.length_rest
  rw [hend] at hlengths
  exact List.length_eq_zero_iff.mp hlengths

/-- The last reads of both come together. -/
theorem read_last (h : Paired reader reader' body body') (hend : body.rest = []) :
    body'.read = (body'.lastFailure.elim (.bytes []) .failed, body') := by
  obtain ⟨-, hread⟩ | ⟨y, ys, rest', hrest', -⟩ := Body.read_cases h.bodyOpen'
  · exact hread
  · rw [h.rest_eq_nil hend] at hrest'
    cases hrest'

/-- **A read brings as many bytes of both bodies.** -/
theorem read {x : UInt8} {xs rest : Bytes} (h : Paired reader reader' body body')
    (hrest : body.rest = x :: xs ++ rest)
    (hread : body.read = (.bytes (x :: xs), { body with rest })) :
    ∃ y ys rest', body'.read = (.bytes (y :: ys), { body' with rest := rest' }) ∧
      Paired (reader.fill (.bytes (x :: xs))) (reader'.fill (.bytes (y :: ys))) { body with rest }
        { body' with rest := rest' } := by
  have hlengths := h.length_rest
  obtain ⟨hnil, -⟩ | ⟨y, ys, rest', hrest', hread'⟩ := Body.read_cases h.bodyOpen'
  · rw [hnil, hrest] at hlengths
    cases hlengths
  · -- the pieces are equally long, as what a read brings does not depend on the bytes
    have hpiece : (y :: ys).length = (x :: xs).length := by
      rw [Body.length_of_read hread, Body.length_of_read hread', hlengths, Body.pieceSize,
        Body.pieceSize, h.chunkSize_eq]
    have hsame := h.sameLines
    rw [hrest, hrest', ← List.append_assoc, ← List.append_assoc] at hsame
    refine ⟨y, ys, rest', hread', h.ready.fill x xs, h.ready'.fill y ys, h.no_failure,
      h.no_failure', h.bodyOpen, h.bodyOpen', h.limit_eq, h.chunkSize_eq, h.failure_eq, ?_, hsame⟩
    rw [pending_fill, pending_fill, List.length_append, List.length_append, h.length_eq, hpiece]

end Paired

end LineReader

namespace Plan

open LineReader (Paired)

variable {reader reader' : LineReader} {body body' : Body} {t t' : Transcoder}

/-- **At the end of both bodies**: what is held of each is a last line, or both have failed. -/
theorem akin_ofTail (h : Paired reader reader' body body') (hno : 0x0A ∉ reader.pending)
    (hend : body.rest = []) (ht : t.Akin t') (lines : Nat) :
    Akin (ofTail (reader.fill (body.lastFailure.elim (.bytes []) .failed)).finish.1 t lines)
      (ofTail (reader'.fill (body'.lastFailure.elim (.bytes []) .failed)).finish.1 t' lines) := by
  have hlast : body'.lastFailure = body.lastFailure := by
    rw [Body.lastFailure, Body.lastFailure, h.failure_eq]
  rw [hlast]
  cases body.lastFailure with
  | some d => exact akin_ending ht lines (some d)
  | none =>
    have hsame := h.sameLines
    rw [hend, h.rest_eq_nil hend, List.append_nil, List.append_nil] at hsame
    have hline := (Bytes.sameLines_tail_iff hno (h.newline_mem.not.mp hno)).mp hsame
    rw [Option.elim_none, LineReader.finish_fill_end h.no_failure,
      LineReader.finish_fill_end h.no_failure']
    by_cases hnil : reader.pending = []
    · rw [hnil] at hline
      rw [if_pos hnil, if_pos hline.eq_nil]
      exact akin_ending ht lines none
    · have hnil' : reader'.pending ≠ [] := fun e => hnil (by
        rw [e] at hline
        exact hline.symm.eq_nil)
      rw [if_neg hnil, if_neg hnil']
      exact akin_lastLine ht hline.withoutReturn lines

/-- **The plans for bodies with the same lines are akin**, by the recursion of the reader. -/
theorem akin_ofBody {reader reader' : LineReader} {body body' : Body} {t t' : Transcoder}
    (h : Paired reader reader' body body') (ht : t.Akin t') (lines : Nat) :
    Akin (ofBody reader body t lines) (ofBody reader' body' t' lines) := by
  cases hscan : reader.scan with
  | line content next =>
    obtain ⟨content', next', hscan', hline, hnext⟩ := h.scan_line hscan
    rw [ofBody_of_line hscan, ofBody_of_line hscan']
    exact akin_afterStep (ht.onLine hline) (ofBody next body · (lines + 1))
      (ofBody next' body' · (lines + 1)) (fun ht => akin_ofBody hnext ht (lines + 1)) (lines + 1)
  | overLimit next =>
    obtain ⟨next', hscan'⟩ := h.scan_overLimit hscan
    rw [ofBody_of_overLimit hscan, ofBody_of_overLimit hscan']
    exact akin_ending ht lines _
  | hungry next =>
    obtain ⟨next', hscan', hnext, hno⟩ := h.scan_hungry hscan
    obtain ⟨hend, hread⟩ | ⟨x, xs, rest, hrest, hread⟩ := Body.read_cases h.bodyOpen
    · rw [ofBody_of_last hscan hread, ofBody_of_last hscan' (hnext.read_last hend)]
      exact (akin_ofTail hnext hno hend ht lines).read
    · have hlt : rest.length < body.rest.length := by
        rw [hrest, List.length_append, List.length_cons]
        omega
      obtain ⟨y, ys, rest', hread', hfill⟩ := hnext.read hrest hread
      rw [ofBody_of_hungry hscan, ofBody_of_hungry hscan', hread, hread']
      exact (akin_ofBody hfill ht lines).read
termination_by (body.rest.length, reader.buffer.length - reader.scanFrom)
decreasing_by
  · exact Prod.Lex.right _ (LineReader.scan_line_lt hscan)
  · exact Prod.Lex.left _ _ hlt

end Plan

/-! ## 5. The log of a run -/

namespace Run

variable {r r' : Run} {d : Delivery} {new : List Bytes}

/-- What is in the log and what the plan will write. -/
def logged (r : Run) : List LogEntry :=
  r.log ++ r.plan.elim [] Plan.log

theorem Owes.logged_act (h : r.Owes d) (hs : Act r new r') : r'.logged = r.logged := by
  unfold logged
  cases hs with
  | close hp =>
    rw [hp]
    rfl
  | note hp =>
    rw [hp]
    exact List.append_assoc _ _ _
  | accepted hp =>
    rw [hp]
    rfl
  | refused hp hrefused =>
    rw [h.closed_eq, hp] at hrefused
    cases hrefused
  | @read broken next hp =>
    have hnext : (if r.bodyClosed then broken else next) = next :=
      if_neg (by rw [h.bodyOpen]; exact Bool.false_ne_true)
    rw [hp, hnext]
    rfl
  | @test cancelled next hp =>
    have hnext : (if r.events.closed then cancelled else next) = next :=
      if_neg (by rw [h.closed_eq, hp]; exact Bool.false_ne_true)
    rw [hp, hnext]
    rfl
  | publish hp =>
    rw [hp]
    rfl

/-- **The invariant on every run that is reached** without cancels. -/
theorem Owes.log_eq (h : r.Owes d) (hr : r.Reaches r') : r'.logged = r.logged := by
  induction hr with
  | start => rfl
  | step hr hs ih =>
    rw [← ih]
    cases hs with
    | produce hp => exact (h.reaches hr).logged_act (act_of_produce hp)
    | receive hc =>
      obtain ⟨event, rest, -, rfl⟩ := receive_eq_some hc
      rfl

/-- At its end a run has written the log of its plan. -/
theorem log_of_ended {body : Body} {t : Transcoder} {options : Options}
    (hr : (start body t options).Reaches r) (hend : r.Ended) :
    r.log = (Plan.ofBody { limit := options.maxLineBytes } body t 0).log := by
  have howes := owes_start body t options
  have hlogged := howes.log_eq hr
  have hdone : r.plan = none := by
    rw [← Option.isNone_iff_eq_none, ← (howes.reaches hr).closed_eq]
    exact (Channel.pop_ended hend).2
  unfold logged at hlogged
  rw [hdone] at hlogged
  exact (List.append_nil _).symm.trans hlogged

end Run

/-! ## 6. What a reader of the log sees -/

/-- Pieces are put together again with the separator between them. -/
theorem Bytes.intercalate_splitAtByte (sep : UInt8) (s : Bytes) :
    [sep].intercalate (splitAtByte sep s) = s := by
  induction s with
  | nil => rfl
  | cons b s ih =>
    rw [splitAtByte]
    cases hs : splitAtByte sep s with
    | nil => exact absurd hs (splitAtByte_ne_nil sep s)
    | cons piece rest =>
      rw [hs] at ih
      split
      · rename_i hb
        rw [List.intercalate_cons_cons, ih, hb]
        rfl
      · cases rest with
        | nil =>
          rw [List.intercalate_singleton] at ih ⊢
          rw [ih]
        | cons piece' rest =>
          rw [List.intercalate_cons_cons] at ih ⊢
          rw [List.cons_append, List.cons_append, ih]

namespace LogEntry

theorem visible_append (threshold : LogLevel) (entries entries' : List LogEntry) :
    visible threshold (entries ++ entries') =
      visible threshold entries ++ visible threshold entries' := by
  rw [visible, List.filter_append, List.flatMap_append]
  rfl

/-- The lines of an entry show all of its message. -/
theorem message_eq_of_lines {component message message' : Bytes}
    (h : (warning component message).lines = (warning component message').lines) :
    message = message' := by
  have hrender : (warning component message).render = (warning component message').render := by
    have hjoined := congrArg ([0x0A] : Bytes).intercalate h
    rwa [lines, lines, Bytes.intercalate_splitAtByte, Bytes.intercalate_splitAtByte] at hjoined
  exact List.append_cancel_left hrender

theorem visible_warning (threshold : LogLevel) (component message : Bytes) :
    visible threshold [warning component message] =
      if threshold.admits .warning then (warning component message).lines else [] := by
  have hlevel : (warning component message).level = .warning := rfl
  rw [visible, List.filter_singleton, hlevel]
  cases threshold.admits .warning with
  | false => rfl
  | true => exact List.append_nil _

/-- **A reader tells two reports apart** exactly when the threshold shows warnings and their texts
    differ. -/
theorem visible_reportEntries_eq_iff {error error' : Option RelayError}
    (h : SameError error error') (threshold : LogLevel) :
    visible threshold (reportEntries error) = visible threshold (reportEntries error') ↔
      (threshold.admits .warning = true →
        error.map RelayError.message = error'.map RelayError.message) := by
  obtain rfl | ⟨text, text', rfl, rfl⟩ := h
  · exact ⟨fun _ _ => rfl, fun _ => rfl⟩
  · rw [reportEntries, reportEntries, visible_warning, visible_warning, Option.map_some,
      Option.map_some, Option.some_inj]
    constructor
    · intro hvisible hadmits
      rw [if_pos hadmits, if_pos hadmits] at hvisible
      exact List.append_cancel_left (message_eq_of_lines hvisible)
    · intro hmessage
      by_cases hadmits : threshold.admits .warning = true
      · rw [hmessage hadmits]
      · rw [if_neg hadmits, if_neg hadmits]

end LogEntry

open LogEntry in
theorem AgreeButForReports.visible_eq_iff {log log' : List LogEntry}
    {error error' : Option RelayError} (h : AgreeButForReports log log' error error')
    (threshold : LogLevel) :
    visible threshold log = visible threshold log' ↔
      (threshold.admits .warning = true →
        error.map RelayError.message = error'.map RelayError.message) := by
  obtain ⟨⟨shared, rfl, rfl⟩, herror⟩ := h
  rw [visible_append, visible_append, List.append_right_inj]
  exact visible_reportEntries_eq_iff herror threshold

/-! ## 7. Two streams -/

namespace Run

open Bytes LogEntry

variable {t : Transcoder} {data data' : Bytes} {r r' : Run}

/-- The runs on bodies with the same lines end so, whatever the order of their steps. -/
theorem agreeButForReports_of_akin (ht : t.Akin t) (hdata : SameLines data data') {chunkSize : Nat}
    {failure : Option Bytes} {options : Options}
    (hr : (start { rest := data, chunkSize, failure } t options).Reaches r) (hend : r.Ended)
    (hr' : (start { rest := data', chunkSize, failure } t options).Reaches r') (hend' : r'.Ended) :
    AgreeButForReports r.log r'.log r.slot.error r'.slot.error := by
  have hpaired : LineReader.Paired { limit := options.maxLineBytes }
      { limit := options.maxLineBytes } { rest := data, chunkSize, failure }
      { rest := data', chunkSize, failure } :=
    ⟨LineReader.ready_empty _, LineReader.ready_empty _, rfl, rfl, rfl, rfl, rfl, rfl, rfl, rfl,
      hdata⟩
  have hplans := Plan.akin_ofBody hpaired ht 0
  unfold Plan.Akin at hplans
  rwa [← log_of_ended hr hend, ← log_of_ended hr' hend',
    ← (((owes_start _ t options).reaches hr).of_ended hend).2,
    ← (((owes_start _ t options).reaches hr').of_ended hend').2] at hplans

/-- **The log tells two streams apart by reports only.** Take a transcoder as it is made, and two
    bodies with the same lines but for payload, in pieces of the same size and with the same
    failure. In every order of their steps both streams come to an end. Their errors are then the
    same, or each is what a line reported, and both logs are the same entries, followed by the
    report if there is one: a reader whose threshold shows warnings sees the same lines exactly when
    the errors say the same, and any other reader sees the same lines always. -/
theorem logs_agree_but_for_reports {model : Bytes} (ht : t.Fresh model)
    (hdata : SameLines data data') (chunkSize : Nat) (failure : Option Bytes) (options : Options) :
    let run (data : Bytes) := start { rest := data, chunkSize, failure } t options
    (∀ r, (run data).Reaches r → ∃ s, r.Reaches s ∧ s.Ended) ∧
      (∀ r, (run data').Reaches r → ∃ s, r.Reaches s ∧ s.Ended) ∧
      ∀ r r', (run data).Reaches r → r.Ended → (run data').Reaches r' → r'.Ended →
        AgreeButForReports r.log r'.log r.slot.error r'.slot.error ∧
          ∀ threshold, visible threshold r.log = visible threshold r'.log ↔
            (threshold.admits .warning = true →
              r.slot.error.map RelayError.message = r'.slot.error.map RelayError.message) := by
  intro run
  refine ⟨fun r hr => ((owes_start _ t options).reaches hr).reaches_ended,
    fun r hr => ((owes_start _ t options).reaches hr).reaches_ended, ?_⟩
  intro r r' hr hend hr' hend'
  have h := agreeButForReports_of_akin ht.akin hdata hr hend hr' hend'
  exact ⟨h, h.visible_eq_iff⟩

/-- Two answers of which only the text differs, each cut off behind its first line: a reader of the
    log cannot tell which is which. -/
theorem logs_agree_but_for_reports_of_answers :
    let line (text : Bytes) : Bytes :=
      ofString "data: \x7b" ++ quoted "choices" (ofString ":[\x7b" ++ quoted "delta"
        (ofString ":\x7b" ++ quoted "content"
          (ofString ":" ++ quoted text (ofString "\x7d\x7d]\x7d"))))
    let run (text : Bytes) :=
      start { rest := line text ++ [0x0A], chunkSize := 7, failure := some "EOF" }
        (.openaiToClaude {}) Options.default
    SameLines (line "ab" ++ [0x0A]) (line "cd" ++ [0x0A]) ∧
      ∃ r r', (run "ab").Reaches r ∧ r.Ended ∧ (run "cd").Reaches r' ∧ r'.Ended ∧
        ∀ threshold, visible threshold r.log = visible threshold r'.log := by
  intro line run
  have hcontent : Alike (quoted "content" (ofString ":" ++ quoted "ab" (ofString "\x7d\x7d]\x7d")))
      (quoted "content" (ofString ":" ++ quoted "cd" (ofString "\x7d\x7d]\x7d"))) :=
    .payload (rfl : Json.Literal "content" "content") (by decide) isColon_plain
      (rfl : Json.Literal "ab" "ab") (rfl : Json.Literal "cd" "cd") rfl (by decide) (.same _)
  have hline : Alike (line "ab") (line "cd") :=
    .append_left (by decide) (.string (rfl : Json.Literal "choices" "choices")
      (.append_left (by decide) (.string (rfl : Json.Literal "delta" "delta")
        (.append_left (by decide) hcontent))))
  have hdata : SameLines (line "ab" ++ [0x0A]) (line "cd" ++ [0x0A]) :=
    (sameLines_line_iff (by decide) (by decide)).mpr
      ⟨hline, (sameLines_tail_iff (by decide) (by decide)).mpr (.same [])⟩
  have hfit : SegmentsFit Options.default.maxLineBytes (line "ab" ++ [0x0A]) := by
    unfold SegmentsFit
    decide
  obtain ⟨hends, hends', hagree⟩ := logs_agree_but_for_reports
    (Transcoder.Fresh.openaiToClaude : Transcoder.Fresh "m" _) hdata 7 (some "EOF") Options.default
  obtain ⟨r, hr, hend⟩ := hends _ .start
  obtain ⟨r', hr', hend'⟩ := hends' _ .start
  obtain ⟨⟨-, herror⟩, hvisible⟩ := hagree r r' hr hend hr' hend'
  have hcut : r.slot.error = some (.disconnected ⟨"EOF", false⟩) := by
    rw [((drained_outcome _ _ 7 (some "EOF") _ hfit).1 r hr hend).2]
    decide +kernel
  obtain hsame | ⟨text, -, hreported, -⟩ := herror
  · exact ⟨hdata, r, r', hr, hend, hr', hend', fun threshold =>
      (hvisible threshold).mpr fun _ => congrArg _ hsame.symm⟩
  · rw [hcut] at hreported
    cases hreported

/-- **A report is shown**: two streams that report an error, whose logs tell a reader what the
    errors say. -/
theorem report_shown :
    let line (text : Bytes) : Bytes :=
      ofString "data: \x7b" ++ quoted "error" (ofString ":\x7b" ++ quoted "message"
        (ofString ":" ++ quoted text (ofString "\x7d\x7d")))
    let run (text : Bytes) := start { rest := line text } (.openaiToClaude {}) Options.default
    SameLines (line "a") (line "b") ∧
      ∃ r r', (run "a").Reaches r ∧ r.Ended ∧ (run "b").Reaches r' ∧ r'.Ended ∧
        visible .warning r.log ≠ visible .warning r'.log := by
  intro line run
  have hline : Alike (line "a") (line "b") :=
    .append_left (by decide) (.string (rfl : Json.Literal "error" "error")
      (.append_left (by decide)
        (.payload (rfl : Json.Literal "message" "message") (by decide) isColon_plain
          (rfl : Json.Literal "a" "a") (rfl : Json.Literal "b" "b") rfl (by decide) (.same _))))
  have hdata : SameLines (line "a") (line "b") :=
    (sameLines_tail_iff (by decide) (by decide)).mpr hline
  have hfit (text : Bytes) (h : text = "a" ∨ text = "b") :
      SegmentsFit Options.default.maxLineBytes (line text) := by
    unfold SegmentsFit
    obtain rfl | rfl := h <;> decide
  obtain ⟨r, hr, hend⟩ := (owes_start { rest := line "a" } (.openaiToClaude {}) Options.default)
    |>.reaches_ended
  obtain ⟨r', hr', hend'⟩ := (owes_start { rest := line "b" } (.openaiToClaude {}) Options.default)
    |>.reaches_ended
  have hagree := agreeButForReports_of_akin
    (Transcoder.Fresh.openaiToClaude : Transcoder.Fresh "m" _).akin hdata hr hend hr' hend'
  have herror : r.slot.error = some (.reported (ofString "\x7b\"message\":\"a\"\x7d")) := by
    rw [((drained_outcome _ _ 0 none _ (hfit "a" (.inl rfl))).1 r hr hend).2]
    decide +kernel
  have herror' : r'.slot.error = some (.reported (ofString "\x7b\"message\":\"b\"\x7d")) := by
    rw [((drained_outcome _ _ 0 none _ (hfit "b" (.inr rfl))).1 r' hr' hend').2]
    decide +kernel
  refine ⟨hdata, r, r', hr, hend, hr', hend', fun hvisible => ?_⟩
  have hmessage := (hagree.visible_eq_iff .warning).mp hvisible rfl
  rw [herror, herror'] at hmessage
  revert hmessage
  decide

end Run

end ChatRelay
