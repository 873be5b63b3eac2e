import ChatRelay.Proofs.Interleaving
import ChatRelay.Proofs.Reporting

/-!
# Streams that are cancelled

What a consumer that cancels may find in the error slot. The first of its two steps closes the
channel, so a producer whose read fails since the body is closed sees a closed channel, and says
nothing of the read.

* `Plan.mayPublish` -- the errors that a plan may still set, whatever the consumer does;
* `Plan.mem_mayPublish_ofBody` -- for a body these are the error of the stream that nobody cancels,
  and what the end of the transcoder may fail with;
* `Run.Publishes` -- the INVARIANT of the slot;
* `Run.cancelled_outcome` -- all runs of a stream, cancelled at any moment, against those that are
  not.
-/

namespace ChatRelay

/-! ## 1. Errors of a plan -/

namespace Plan

/-- The errors that a plan may still set: any of them, or those that are left once the channel of
    events is closed. -/
def mayPublish (closed : Bool) : Plan → List RelayError
  | done => []
  | note _ next => next.mayPublish closed
  | push _ refused next =>
    refused.mayPublish true ++ (if closed then [] else next.mayPublish false)
  | read broken next => broken.mayPublish true ++ next.mayPublish closed
  | test cancelled next =>
    cancelled.mayPublish true ++ (if closed then [] else next.mayPublish false)
  | publish error next => error :: next.mayPublish closed

variable {closed : Bool} {e : RelayError} {t : Transcoder} {next : Plan}

/-- A closed channel leaves fewer errors. -/
theorem mem_mayPublish_of_closed {p : Plan} (h : e ∈ p.mayPublish true) :
    e ∈ p.mayPublish closed := by
  cases closed with
  | true => exact h
  | false =>
    induction p with
    | done => exact h
    | note _ next ih => exact ih h
    | push _ refused next _ _ =>
      exact List.mem_append_left _ ((List.mem_append.mp h).resolve_right List.not_mem_nil)
    | test _ next _ _ =>
      exact List.mem_append_left _ ((List.mem_append.mp h).resolve_right List.not_mem_nil)
    | read broken next _ ih =>
      exact List.mem_append.mpr ((List.mem_append.mp h).imp id ih)
    | publish error next ih =>
      exact List.mem_cons.mpr ((List.mem_cons.mp h).imp id ih)

theorem mayPublish_notes (entries : List LogEntry) :
    (notes entries next).mayPublish closed = next.mayPublish closed := by
  induction entries with
  | nil => rfl
  | cons entry entries ih => exact ih

/-- Deliveries set no error, refused or not. -/
theorem mem_mayPublish_pushes {events : List Bytes} {lines : Nat}
    (h : e ∈ (pushes events lines next).mayPublish closed) : e ∈ next.mayPublish closed := by
  induction events with
  | nil => exact h
  | cons event events ih =>
    have hrest := (List.mem_append.mp h).resolve_left List.not_mem_nil
    cases closed with
    | true => cases hrest
    | false => exact ih hrest

theorem mem_mayPublish_ofStep {step : Step Transcoder Bytes} {lines : Nat}
    (h : e ∈ (ofStep step lines next).mayPublish closed) : e ∈ next.mayPublish closed := by
  have hnotes := mem_mayPublish_pushes h
  rwa [mayPublish_notes] at hnotes

/-- **A read that fails at a closed channel goes unsaid**; only the end of the transcoder may
    fail. -/
theorem onEnd_of_mem_mayPublish_ending {lines : Nat} {d : Disconnect}
    (h : e ∈ (ending t lines (some d)).mayPublish true) : t.onEnd = .error e := by
  unfold ending at h
  split at h
  · rename_i e' hend
    rw [List.mem_singleton.mp h]
    exact hend
  · exact absurd (mem_mayPublish_ofStep h) List.not_mem_nil

/-- A plan that sets no other error than that of its delivery. -/
def Plain (p : Plan) : Prop :=
  ∀ e ∈ p.mayPublish false, p.delivery.error = some e

theorem plain_done : Plain done := List.forall_mem_nil _

theorem plain_fail (error : RelayError) : Plain (fail error) :=
  List.forall_mem_singleton.mpr rfl

theorem Plain.ofStep (h : next.Plain) (step : Step Transcoder Bytes) (lines : Nat) :
    Plain (ofStep step lines next) := by
  intro e he
  rw [delivery_ofStep]
  exact h e (mem_mayPublish_ofStep he)

theorem plain_verdict (t : Transcoder) (lines : Nat) (d : Disconnect) :
    Plain (verdict t lines d) := by
  intro e he
  unfold verdict at he ⊢
  have hnext := (List.mem_append.mp he).resolve_left List.not_mem_nil
  rw [if_neg Bool.false_ne_true] at hnext
  show (if _ then _ else _ : Plan).delivery.error = some e
  split at hnext
  · cases hnext
  · rw [if_neg ‹_›, List.mem_singleton.mp hnext]
    rfl

theorem plain_ending (t : Transcoder) (lines : Nat) (failure : Option Disconnect) :
    Plain (ending t lines failure) := by
  unfold ending
  cases t.onEnd with
  | error e => exact plain_fail e
  | ok step =>
    cases failure with
    | none => exact plain_done.ofStep step lines
    | some d => exact (plain_verdict step.state lines d).ofStep step lines

theorem plain_ofTail (outcome : LineReader.Outcome) (t : Transcoder) (lines : Nat) :
    Plain (ofTail outcome t lines) := by
  cases outcome with
  | error d => exact plain_ending t lines (some d)
  | ok line =>
    cases line with
    | none => exact plain_ending t lines none
    | some line =>
      unfold ofTail
      dsimp only
      cases t.onLine line with
      | error e => exact plain_fail e
      | ok step => exact (plain_ending step.state (lines + 1) none).ofStep step (lines + 1)

/-- **The errors that a stream may set**: the one that it ends with when nobody cancels, and those
    with which the end of the transcoder fails after some of the lines. -/
theorem mem_mayPublish_ofBody {reader : LineReader} {body : Body} {lines : Nat}
    (h : e ∈ (ofBody reader body t lines).mayPublish false) :
    (ofBody reader body t lines).delivery.error = some e ∨
      ∃ s, t.Reaches s ∧ s.onEnd = .error e := by
  fun_induction ofBody reader body t lines with
  | case1 reader body t lines line next hscan e' he => exact .inl (plain_fail e' e h)
  | case2 reader body t lines line next hscan step hstep ih =>
    refine (ih (mem_mayPublish_ofStep h)).imp (fun herror => ?_) fun hlater => ?_
    · rw [delivery_ofStep]
      exact herror
    · obtain ⟨s, hs, hend⟩ := hlater
      exact ⟨s, (Transcoder.reaches_of_onLine hstep).trans hs, hend⟩
  | case3 reader body t lines next hscan => exact .inl (plain_ending t lines _ e h)
  | case4 reader body t lines next hscan ih =>
    rcases List.mem_append.mp h with h | h
    · exact .inr ⟨t, .start, onEnd_of_mem_mayPublish_ending h⟩
    · rw [delivery]
      split at h
      · rename_i x xs rest hread
        exact ih x xs rest hread h
      · exact .inl (plain_ofTail _ t lines e h)

/-! ## 2. Lost connections -/

variable {d : Disconnect}

/-- The end of a stream reports no other failure than that of the last read. -/
theorem failure_of_delivery_ending {lines : Nat} {failure : Option Disconnect}
    (h : (ending t lines failure).delivery.error = some (.disconnected d)) : failure = some d := by
  rw [delivery_ending, Transcoder.delivery] at h
  split at h
  · rename_i e' hend
    cases h
    cases (Transcoder.failsOnly _).onEnd _ hend
  · obtain ⟨d', rfl, hd⟩ := Option.bind_eq_some_iff.mp h
    split at hd
    · cases hd
    · cases hd
      rfl

/-- A line is no failed read. -/
theorem not_disconnected_of_onLine {line : Bytes} (he : t.onLine line = .error e) :
    (fail e).delivery.error ≠ some (.disconnected d) := by
  intro h
  cases h
  obtain h | ⟨text, h⟩ := (Transcoder.failsOnly _).onLine _ _ he
  · cases h
  · cases h

theorem failure_of_delivery_ofTail {outcome : LineReader.Outcome} {lines : Nat}
    (h : (ofTail outcome t lines).delivery.error = some (.disconnected d)) :
    outcome = .error d := by
  cases outcome with
  | error d' =>
    obtain rfl : d' = d := Option.some.inj (failure_of_delivery_ending h)
    rfl
  | ok line =>
    exfalso
    cases line with
    | none =>
      have hending : (ending t lines none).delivery.error = some (.disconnected d) := h
      cases failure_of_delivery_ending hending
    | some line =>
      unfold ofTail at h
      dsimp only at h
      split at h
      · rename_i he
        exact not_disconnected_of_onLine he h
      · rw [delivery_ofStep] at h
        cases failure_of_delivery_ending h

/-- **A lost connection that a stream ends with** is a line over the limit, or the failure of the
    body itself. -/
theorem lost_of_delivery_ofBody {reader : LineReader} {body : Body} {lines : Nat}
    (hr : reader.Ready) (hf : reader.failure = none) (hopen : body.closed = false)
    (h : (ofBody reader body t lines).delivery.error = some (.disconnected d)) :
    d = LineReader.tooLong ∨ body.lastFailure = some d := by
  fun_induction ofBody reader body t lines with
  | case1 reader body t lines line next hscan e he =>
    exact absurd h (not_disconnected_of_onLine he)
  | case2 reader body t lines line next hscan step hstep ih =>
    obtain ⟨hready, -, hfail, -⟩ := LineReader.scan_line hr hscan
    rw [delivery_ofStep] at h
    exact ih hready (hfail.trans hf) hopen h
  | case3 reader body t lines next hscan =>
    exact .inl (Option.some.inj (failure_of_delivery_ending h)).symm
  | case4 reader body t lines next hscan ih =>
    obtain ⟨hready, -, hfail, -⟩ := LineReader.scan_hungry hr hscan
    have hnextFail : next.failure = none := hfail.trans hf
    rw [delivery] at h
    rcases Body.read_cases hopen with ⟨-, hread⟩ | ⟨x, xs, rest, -, hread⟩
    · split at h
      · rename_i hbytes
        rw [hread] at hbytes
        cases hlast : body.lastFailure <;> simp [hlast] at hbytes
      · rename_i outcome _ _ hlast
        rw [hread] at hlast
        cases hlast
        have htail := failure_of_delivery_ofTail h
        cases hlast : body.lastFailure with
        | none =>
          rw [hlast, Option.elim_none, LineReader.finish_fill_end hnextFail] at htail
          split at htail <;> cases htail
        | some d' =>
          rw [hlast, Option.elim_some, LineReader.finish_fill_failed] at htail
          cases htail
          exact .inr rfl
    · split at h
      · rename_i hbytes
        rw [hread] at hbytes
        cases hbytes
        exact ih x xs { body with rest } hread (hready.fill x xs) hnextFail hopen h
      · rename_i hnot hlast
        rw [hread] at hlast
        cases hlast
        exact (hnot x xs rfl).elim

/-- The plan for a body begins with a read. -/
theorem exists_read_ofBody (limit : Nat) (body : Body) (t : Transcoder) (lines : Nat) :
    ∃ next, ofBody { limit } body t lines =
      read (ending t lines (some Body.closedFailure)) next := by
  have hready := LineReader.ready_empty limit
  rw [ofBody]
  split
  · rename_i hscan
    obtain ⟨-, -, -, segment, -, hpending, -⟩ := LineReader.scan_line hready hscan
    exact absurd hpending.symm (List.append_ne_nil_of_right_ne_nil segment (List.cons_ne_nil _ _))
  · rename_i hscan
    exact absurd (LineReader.scan_overLimit hready hscan).2 (Nat.not_lt_zero limit)
  · exact ⟨_, rfl⟩

end Plan

/-! ## 3. The error slot -/

namespace Run

/-- **The invariant of the error slot**: the body is closed after the channel, and the error in the
    slot and the errors that the plan may still set are allowed ones. -/
structure Publishes (r : Run) (allowed : RelayError → Prop) : Prop where
  order : r.bodyClosed = true → r.events.closed = true
  slot : ∀ e, r.slot.error = some e → allowed e
  plan : ∀ p, r.plan = some p → ∀ e ∈ p.mayPublish r.events.closed, allowed e

variable {r r' s t : Run} {accepted new : List Bytes} {allowed : RelayError → Prop}

/-- An act that leaves the slot and the channel's end as they are, with what is left to do. -/
theorem Publishes.follow (h : s.Publishes allowed) {p : Plan} {log : List LogEntry}
    (hp : ∀ e ∈ p.mayPublish s.events.closed, allowed e) :
    Publishes { s with plan := some p, log } allowed where
  order := h.order
  slot := h.slot
  plan q hq := by
    cases hq
    exact hp

theorem Publishes.act (h : s.Publishes allowed) (hs : Act s new t) : t.Publishes allowed := by
  cases hs with
  | close hp => exact ⟨fun _ => rfl, h.slot, fun p hnone => by cases hnone⟩
  | note hp =>
    have hplan := h.plan _ hp
    exact h.follow hplan
  | @accepted event refused next hp hopen hroom =>
    refine ⟨h.order, h.slot, fun p hnext => ?_⟩
    cases hnext
    have hplan := h.plan _ hp
    rw [hopen] at hplan
    show ∀ e ∈ next.mayPublish s.events.closed, allowed e
    rw [hopen]
    exact fun e he => hplan e (List.mem_append_right _ he)
  | @refused event refused next hp hclosed =>
    have hplan := h.plan _ hp
    rw [hclosed] at hplan
    refine h.follow ?_
    rw [hclosed]
    exact fun e he => hplan e (List.mem_append_left _ he)
  | @read broken next hp =>
    have hplan := h.plan _ hp
    refine h.follow fun e he => hplan e ?_
    -- the body is closed after the channel
    cases hbody : s.bodyClosed with
    | true =>
      rw [hbody, if_pos rfl, h.order hbody] at he
      exact List.mem_append_left _ he
    | false =>
      rw [hbody, if_neg Bool.false_ne_true] at he
      exact List.mem_append_right _ he
  | @test cancelled next hp =>
    have hplan := h.plan _ hp
    refine h.follow fun e he => hplan e ?_
    cases hclosed : s.events.closed with
    | true =>
      rw [hclosed, if_pos rfl] at he
      exact List.mem_append_left _ he
    | false =>
      rw [hclosed, if_neg Bool.false_ne_true] at he
      exact List.mem_append_right _ he
  | @publish error next hp =>
    have hplan := h.plan _ hp
    refine ⟨h.order, fun e he => ?_, fun p hnext => ?_⟩
    · -- the slot keeps the error that it has
      obtain hold | ⟨-, hnew⟩ := Option.or_eq_some_iff.mp he
      · exact h.slot e hold
      · cases hnew
        exact hplan error List.mem_cons_self
    · cases hnext
      exact fun e he => hplan e (List.mem_cons_of_mem error he)

theorem Publishes.move (h : s.Publishes allowed) (hs : Move s new t) : t.Publishes allowed := by
  cases hs with
  | produce hp => exact h.act (act_of_produce hp)
  | receive hc =>
    obtain ⟨event, rest, -, rfl⟩ := receive_eq_some hc
    exact ⟨h.order, h.slot, h.plan⟩
  | closeEvents =>
    exact ⟨fun _ => rfl, h.slot, fun p hp e he => h.plan p hp e (Plan.mem_mayPublish_of_closed he)⟩
  | closeBody hclosed => exact ⟨fun _ => hclosed, h.slot, h.plan⟩

/-- **The invariant of the slot on every run that is reached.** -/
theorem Leads.publishes (h : r.Leads accepted s) (hr : r.Publishes allowed) :
    s.Publishes allowed := by
  induction h with
  | start => exact hr
  | step _ hs ih => exact ih.move hs

/-! ## 4. Cancelled runs -/

/-- An act that puts nothing into the channel. -/
theorem Leads.quiet (h : r.Leads [] s) (hs : s.produce = some t) (hnone : s.accepted? = none) :
    r.Leads [] t := by
  have hstep := h.step (.produce hs)
  rwa [hnone] at hstep

/-- A stream that is about to run may set the errors of its plan. -/
theorem publishes_start (body : Body) (t : Transcoder) (options : Options) :
    (start body t options).Publishes fun e =>
      (Plan.ofBody { limit := options.maxLineBytes } body t 0).delivery.error = some e ∨
        ∃ s, t.Reaches s ∧ s.onEnd = .error e where
  order h := by cases h
  slot e h := by cases h
  plan p hp e he := by
    cases hp
    exact Plan.mem_mayPublish_ofBody he

/-- **The outcome of a stream that is cancelled.** There is a run that nobody cancels and that comes
    to its end; and whatever the order of steps and the moment of the cancel, a run of the same
    stream that may be cancelled stays within what that one comes to:

    * what the consumer has received are the first of its events;
    * the error slot is empty or holds its error; when the name of the model is not UTF-8, it may
      also hold the failure to write that name;
    * the slot does not hold the failure of a read of a closed body, unless the body's own failure
      says the same. -/
theorem cancelled_outcome {model : Bytes} {t : Transcoder} (ht : Transcoder.Fresh model t)
    (body : Body) (hopen : body.closed = false) (options : Options) :
    let r₀ := start body t options
    (∃ u, r₀.Reaches u ∧ u.Ended) ∧
      ∀ u, r₀.Reaches u → u.Ended → ∀ accepted r, r₀.Leads accepted r →
        r.received <+: u.received ∧
          (r.slot.error = none ∨ r.slot.error = u.slot.error ∨
            (Utf8.valid model = false ∧ r.slot.error = some .wrongJsonType)) ∧
          (r.slot.error = some (.disconnected Body.closedFailure) →
            body.failure = some Body.closedFailure.message) := by
  intro r₀
  have howes := owes_start body t options
  refine ⟨howes.reaches_ended, fun u hu hend accepted r hr => ?_⟩
  obtain ⟨hreceived, herror⟩ := (howes.reaches hu).of_ended hend
  have hfollows := hr.follows howes.follows
  have hslot := (hr.publishes (publishes_start body t options)).slot
  refine ⟨?_, ?_, fun hclosed => ?_⟩
  · rw [hreceived]
    exact (List.prefix_append _ _).trans hfollows.first
  · cases hr' : r.slot.error with
    | none => exact .inl rfl
    | some e =>
      obtain hsame | ⟨s, hs, hend⟩ := hslot e hr'
      · exact .inr (.inl (hsame.symm.trans herror.symm))
      · refine .inr (.inr ?_)
        rw [(Transcoder.failsOnly _).onEnd _ hend]
        refine ⟨?_, rfl⟩
        cases hmodel : Utf8.valid model with
        | false => rfl
        | true =>
          obtain ⟨step, hok, -⟩ := (hs.isText (ht.isText hmodel)).survives.ends
          rw [hok] at hend
          cases hend
  · obtain hsame | ⟨s, -, hend⟩ := hslot _ hclosed
    · obtain h | h := Plan.lost_of_delivery_ofBody (LineReader.ready_empty _) rfl hopen hsame
      · exact absurd h (by decide)
      · obtain ⟨message, hmessage, h⟩ := Option.map_eq_some_iff.mp h
        rw [hmessage, ← h]
    · cases (Transcoder.failsOnly _).onEnd _ hend

/-- A stream that is cancelled before the first read: the read fails, and the transcoder is brought
    to its end. -/
theorem exists_leads_ending (body : Body) (t : Transcoder) (options : Options) :
    ∃ r, (start body t options).Leads [] r ∧ r.slot = {} ∧ r.events.closed = true ∧
      r.plan = some (Plan.ending t 0 (some Body.closedFailure)) := by
  obtain ⟨next, hplan⟩ := Plan.exists_read_ofBody options.maxLineBytes body t 0
  have hread : (start body t options).cancel.plan =
      some (.read (Plan.ending t 0 (some Body.closedFailure)) next) := congrArg some hplan
  have hcancel : (start body t options).Leads [] (start body t options).cancel :=
    (Leads.start.step (.closeEvents _)).step (.closeBody rfl)
  have hproduce : (start body t options).cancel.produce = some
      { (start body t options).cancel with
        plan := some (Plan.ending t 0 (some Body.closedFailure)) } := by
    rw [produce, hread]
    rfl
  refine ⟨_, hcancel.quiet hproduce ?_, rfl, rfl, rfl⟩
  rw [accepted?, hread]

/-- A consumer that cancels before the first read. The producer runs to its end, and the failure of
    the body does not come up. -/
theorem cancelled_outcome_before_reading :
    let body : Body := { rest := "data: a\n\n", failure := some "EOF" }
    let r₀ := start body (.passthrough {}) Options.default
    ∃ u r, r₀.Reaches u ∧ u.Ended ∧ r₀.Leads [] r ∧ r.plan = none ∧ r.slot.error = none ∧
      r.received <+: u.received := by
  intro body r₀
  obtain ⟨⟨u, hu, hend⟩, hall⟩ :=
    cancelled_outcome (Transcoder.Fresh.passthrough : Transcoder.Fresh "m" _) body rfl
      Options.default
  obtain ⟨⟨plan, events, bodyClosed, slot, log, received⟩, hr, hslot, hclosed, hplan⟩ :=
    exists_leads_ending body (.passthrough {}) Options.default
  cases hplan
  -- there is nothing to flush, and the test finds the channel closed
  have htest := hr.quiet rfl rfl
  rw [hclosed] at htest
  have hdone := ((htest.quiet rfl rfl).quiet rfl rfl)
  exact ⟨u, _, hu, hend, hdone, rfl, congrArg _ hslot, (hall u hu hend [] _ hdone).1⟩

/-- A cancel may change the error, and a body may fail as a closed one does.

    * A stream with a report of an error is cancelled before it is read; then the name of the model,
      which is not UTF-8, cannot be written at the end. Nobody sees that when nobody cancels: the
      report comes first.
    * A body fails by itself with the words of a read of a closed body. The cancel comes when the
      run is over. -/
theorem cancelled_error_differs :
    let t : Transcoder := .openaiToReplies { id := Identifier.reply 0, model := [0xFF] }
    let body : Body := { rest := Bytes.ofString "data: \x7b\"error\":1\x7d\n" }
    let failing : Body := { rest := [], failure := some "read on closed body" }
    let r₀ := start body t Options.default
    ((∀ u, r₀.Reaches u → u.Ended → u.slot.error = some (.reported "1")) ∧
        ∃ r, r₀.Leads [] r ∧ r.plan = none ∧ r.slot.error = some .wrongJsonType) ∧
      ∃ accepted, ∃ r : Run,
        (start failing (.passthrough {}) Options.default).Leads accepted r.cancel ∧
        r.cancel.slot.error = some (.disconnected Body.closedFailure) := by
  intro t body failing r₀
  have hfit : Bytes.SegmentsFit Options.default.maxLineBytes body.rest := by
    unfold Bytes.SegmentsFit
    decide
  have hfits : Bytes.SegmentsFit Options.default.maxLineBytes failing.rest := by
    unfold Bytes.SegmentsFit
    decide
  refine ⟨⟨fun u hu hend => ?_, ?_⟩, ?_⟩
  · rw [(((owes_lines hfit t 0 none).reaches hu).of_ended hend).2]
    decide +kernel
  · obtain ⟨⟨plan, events, bodyClosed, slot, log, received⟩, hr, hslot, -, hplan⟩ :=
      exists_leads_ending body t Options.default
    cases hplan
    cases hslot
    exact ⟨_, ((hr.quiet rfl rfl).quiet rfl rfl).quiet rfl rfl, rfl, rfl⟩
  · have howes := owes_lines hfits (.passthrough {}) 0 failing.failure
    obtain ⟨r, hr, hend⟩ := howes.reaches_ended
    obtain ⟨accepted, hleads⟩ := hr.leads
    exact ⟨_, r, (hleads.step (.closeEvents r)).step (.closeBody rfl),
      ((howes.reaches hr).of_ended hend).2⟩

end Run

end ChatRelay
