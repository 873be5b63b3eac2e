import ChatRelay.Proofs.Delivery
import ChatRelay.Stream.Run

/-!
# Streams that are drained

A consumer that never cancels takes event after event until there are no more. Producer and consumer
move by atomic steps in any order (`Run.Advance`), and all orders come to the same:

* `Run.Act` -- what an act of the producer can be, said once;
* `Run.Owes` -- the INVARIANT: what was received, what waits in the channel and what the plan still
  delivers add up to the delivery of the stream, and so do the error slot and the plan's error;
* `ended_of_stuck` -- where neither side can move, the consumer has been told of the end;
* `advance_wellFounded` -- no order goes on for ever.
-/

namespace ChatRelay

/-! ## 1. The channel -/

namespace Channel

variable {α : Type} {c c' : Channel α} {item : α}

theorem room_pos (c : Channel α) : 0 < c.room := by
  unfold room
  omega

/-- An accepted push went to the end of a queue with room. -/
theorem push_accepted (h : c.push item = .accepted c') :
    c.closed = false ∧ c.queue.length < c.room ∧ c' = { c with queue := c.queue ++ [item] } := by
  unfold push at h
  split at h
  · cases h
  · rename_i hopen
    split at h
    · rename_i hroom
      cases h
      exact ⟨by simpa using hopen, hroom, rfl⟩
    · cases h

theorem push_refused (h : c.push item = .refused) : c.closed = true := by
  unfold push at h
  split at h
  · assumption
  · split at h <;> cases h

theorem push_waits (h : c.push item = .waits) : c.room ≤ c.queue.length := by
  unfold push at h
  split at h
  · cases h
  · split at h
    · cases h
    · omega

theorem pop_received {rest : Channel α} (h : c.pop = .received item rest) :
    c.queue = item :: rest.queue ∧ rest = { c with queue := rest.queue } := by
  unfold pop at h
  split at h
  · rename_i x xs hq
    cases h
    exact ⟨hq, rfl⟩
  · split at h <;> cases h

theorem pop_waits (h : c.pop = .waits) : c.queue = [] ∧ c.closed = false := by
  unfold pop at h
  split at h
  · cases h
  · rename_i hq
    split at h
    · cases h
    · rename_i hopen
      exact ⟨hq, by simpa using hopen⟩

theorem pop_ended (h : c.pop = .ended) : c.queue = [] ∧ c.closed = true := by
  unfold pop at h
  split at h
  · cases h
  · rename_i hq
    split at h
    · exact ⟨hq, by assumption⟩
    · cases h

end Channel

namespace Run

/-! ## 2. Steps -/

variable {r r' : Run} {new : List Bytes}

/-- The event that the producer's next act puts into the channel, if it does. -/
def accepted? (r : Run) : Option Bytes :=
  match r.plan with
  | some (.push event _ _) =>
    match r.events.push event with
    | .accepted _ => some event
    | .refused | .waits => none
  | _ => none

/-- What the producer's next act can be, and what it puts into the channel. -/
inductive Act (r : Run) : List Bytes → Run → Prop where
  | close (hp : r.plan = some .done) : Act r [] { r with plan := none, events := r.events.close }
  | note {entry : LogEntry} {next : Plan} (hp : r.plan = some (.note entry next)) :
      Act r [] { r with plan := some next, log := r.log ++ [entry] }
  | accepted {event : Bytes} {refused next : Plan} (hp : r.plan = some (.push event refused next))
      (hopen : r.events.closed = false) (hroom : r.events.queue.length < r.events.room) :
      Act r [event]
        { r with
          plan := some next
          events := { r.events with queue := r.events.queue ++ [event] } }
  | refused {event : Bytes} {refused next : Plan} (hp : r.plan = some (.push event refused next))
      (hclosed : r.events.closed = true) : Act r [] { r with plan := some refused }
  | read {closed next : Plan} (hp : r.plan = some (.read closed next)) :
      Act r [] { r with plan := some (if r.bodyClosed then closed else next) }
  | test {closed next : Plan} (hp : r.plan = some (.test closed next)) :
      Act r [] { r with plan := some (if r.events.closed then closed else next) }
  | publish {error : RelayError} {next : Plan} (hp : r.plan = some (.publish error next)) :
      Act r [] { r with plan := some next, slot := r.slot.set error }

/-- **The acts of the producer** are these. -/
theorem act_of_produce (h : r.produce = some r') : Act r r.accepted?.toList r' := by
  unfold produce at h
  unfold accepted?
  split at h
  · cases h
  · rename_i hp
    rw [hp]
    cases h
    exact .close hp
  · rename_i entry next hp
    rw [hp]
    cases h
    exact .note hp
  · rename_i event refused next hp
    cases hpush : r.events.push event with
    | accepted events =>
      obtain ⟨hopen, hroom, rfl⟩ := Channel.push_accepted hpush
      simp only [hpush] at h
      simp only [hp, hpush]
      cases h
      exact .accepted hp hopen hroom
    | refused =>
      simp only [hpush] at h
      simp only [hp, hpush]
      cases h
      exact .refused hp (Channel.push_refused hpush)
    | waits =>
      simp only [hpush] at h
      cases h
  · rename_i closed next hp
    rw [hp]
    cases h
    exact .read hp
  · rename_i closed next hp
    rw [hp]
    cases h
    exact .test hp
  · rename_i error next hp
    rw [hp]
    cases h
    exact .publish hp

/-- A receipt takes the first waiting event. -/
theorem receive_eq_some (h : r.receive = some r') :
    ∃ event rest, r.events.queue = event :: rest ∧
      r' = { r with
        events := { r.events with queue := rest }
        received := r.received ++ [event] } := by
  unfold receive at h
  split at h
  · rename_i event events hpop
    obtain ⟨hqueue, hrest⟩ := Channel.pop_received hpop
    refine ⟨event, events.queue, hqueue, ?_⟩
    rw [← hrest]
    exact (Option.some.inj h).symm
  · cases h
  · cases h

/-- A producer that has something left to do and cannot do it has a channel without room before
    it. -/
theorem room_le_of_produce (hplan : r.plan.isSome = true) (h : r.produce = none) :
    r.events.room ≤ r.events.queue.length := by
  unfold produce at h
  split at h
  · rename_i hp
    rw [hp] at hplan
    cases hplan
  · cases h
  · cases h
  · split at h
    · cases h
    · cases h
    · rename_i hpush
      exact Channel.push_waits hpush
  · cases h
  · cases h
  · cases h

/-! ## 3. Steps without cancels -/

/-- One atomic step of either side, the consumer only receiving. -/
inductive Advance : Run → Run → Prop where
  | produce {r r' : Run} (h : r.produce = some r') : Advance r r'
  | receive {r r' : Run} (h : r.receive = some r') : Advance r r'

/-- The runs that any order of such steps leads to. -/
inductive Reaches (r : Run) : Run → Prop where
  | start : Reaches r r
  | step {s t : Run} (h : Reaches r s) (hs : Advance s t) : Reaches r t

/-- Whether the consumer is told that there are no more events. -/
def Ended (r : Run) : Prop :=
  r.events.pop = .ended

theorem Reaches.trans {r s t : Run} (h : Reaches r s) (h' : Reaches s t) : Reaches r t := by
  induction h' with
  | start => exact h
  | step _ hs ih => exact ih.step hs

/-! ## 4. The invariant -/

/-- **The invariant of a run without cancels**: received, waiting and planned events are those of
    the delivery, in this order, and the channel is closed exactly when the plan is done. -/
structure Owes (r : Run) (d : Delivery) : Prop where
  bodyOpen : r.bodyClosed = false
  closed_eq : r.events.closed = r.plan.isNone
  events_eq : r.received ++ r.events.queue ++ r.plan.elim [] (·.delivery.events) = d.events
  error_eq : r.slot.error.or (r.plan.bind (·.delivery.error)) = d.error

variable {d : Delivery}

theorem owes_start (body : Body) (t : Transcoder) (options : Options) :
    Owes (start body t options)
      (Plan.ofBody { limit := options.maxLineBytes } body t 0).delivery where
  bodyOpen := rfl
  closed_eq := rfl
  events_eq := rfl
  error_eq := rfl

/-- A producer's act moves what it does from the plan to the channel or to the slot. -/
theorem Owes.act (h : r.Owes d) (hs : Act r new r') : r'.Owes d := by
  obtain ⟨hopen, hclosed, hevents, herror⟩ := h
  cases hs with
  | close hp =>
    rw [hp] at hevents herror
    exact ⟨hopen, rfl, hevents, herror⟩
  | note hp =>
    rw [hp] at hclosed hevents herror
    exact ⟨hopen, hclosed, hevents, herror⟩
  | accepted hp =>
    rw [hp] at hclosed hevents herror
    refine ⟨hopen, hclosed, ?_, herror⟩
    rw [← hevents]
    simp [Plan.delivery, Delivery.after]
  | refused hp hrefused =>
    rw [hclosed, hp] at hrefused
    cases hrefused
  | @read broken next hp =>
    rw [hp] at hclosed hevents herror
    have hnext : (if r.bodyClosed then broken else next) = next :=
      if_neg (by rw [hopen]; decide)
    rw [hnext]
    exact ⟨hopen, hclosed, hevents, herror⟩
  | @test cancelled next hp =>
    rw [hp] at hclosed hevents herror
    have hlive : r.events.closed = false := hclosed
    have hnext : (if r.events.closed then cancelled else next) = next :=
      if_neg (by rw [hlive]; decide)
    rw [hnext]
    exact ⟨hopen, hclosed, hevents, herror⟩
  | publish hp =>
    rw [hp] at hclosed hevents herror
    refine ⟨hopen, hclosed, hevents, ?_⟩
    -- the slot has the published error now, or an earlier one
    rw [← herror]
    cases he : r.slot.error <;> simp [ErrorSlot.set, he, Plan.delivery]

theorem Owes.produce (h : r.Owes d) (hs : r.produce = some r') : r'.Owes d :=
  h.act (act_of_produce hs)

/-- A receipt moves the first waiting event to the consumer. -/
theorem Owes.receive (h : r.Owes d) (hs : r.receive = some r') : r'.Owes d := by
  obtain ⟨event, rest, hqueue, rfl⟩ := receive_eq_some hs
  refine ⟨h.bodyOpen, h.closed_eq, ?_, h.error_eq⟩
  rw [← h.events_eq, hqueue]
  simp

/-- **The invariant on every run that is reached.** -/
theorem Owes.reaches (h : r.Owes d) (hr : r.Reaches r') : r'.Owes d := by
  induction hr with
  | start => exact h
  | step _ hs ih =>
    cases hs with
    | produce hp => exact ih.produce hp
    | receive hc => exact ih.receive hc

/-- A consumer that was told of the end has received the whole delivery, and its error is in the
    slot. -/
theorem Owes.of_ended (h : r.Owes d) (hend : r.Ended) :
    r.received = d.events ∧ r.slot.error = d.error := by
  obtain ⟨hqueue, hclosed⟩ := Channel.pop_ended hend
  have hplan : r.plan = none := by
    rw [← Option.isNone_iff_eq_none, ← h.closed_eq]
    exact hclosed
  constructor
  · simpa [hqueue, hplan] using h.events_eq
  · simpa [hplan] using h.error_eq

/-! ## 5. Progress -/

/-- **Neither side waits for ever**: where neither can move, the consumer was told of the end. -/
theorem Owes.ended_of_stuck (h : r.Owes d) (hp : r.produce = none) (hc : r.receive = none) :
    r.Ended := by
  unfold Run.receive at hc
  split at hc
  · cases hc
  · assumption
  · rename_i hpop
    obtain ⟨hqueue, hopen⟩ := Channel.pop_waits hpop
    -- an open channel belongs to a plan, and that plan waits for no room in an empty queue
    rw [h.closed_eq, Option.isNone_eq_false_iff] at hopen
    have hfull := room_le_of_produce hopen hp
    rw [hqueue] at hfull
    exact absurd r.events.room_pos (Nat.not_lt.mpr hfull)

/-- **No order of steps goes on for ever.** -/
theorem advance_wellFounded : WellFounded fun r' r : Run => Advance r r' := by
  refine Subrelation.wf ?_
    (InvImage.wf (fun r : Run => (sizeOf r.plan, r.events.queue.length))
      (Prod.lex Nat.lt_wfRel Nat.lt_wfRel).wf)
  intro r' r h
  cases h with
  | produce hp => exact Prod.Lex.left _ _ (plan_lt_of_produce hp)
  | receive hc =>
    obtain ⟨hplan, hqueue⟩ := queue_lt_of_receive hc
    show Prod.Lex _ _ (sizeOf r'.plan, _) (sizeOf r.plan, _)
    rw [hplan]
    exact Prod.Lex.right _ hqueue

/-- **Every run comes to its end**, whatever its steps so far. -/
theorem Owes.reaches_ended (h : r.Owes d) : ∃ r', r.Reaches r' ∧ r'.Ended := by
  induction r using advance_wellFounded.induction with
  | _ r ih =>
    cases hc : r.receive with
    | some s =>
      obtain ⟨r', hr', hend⟩ := ih s (.receive hc) (h.receive hc)
      exact ⟨r', (Reaches.start.step (.receive hc)).trans hr', hend⟩
    | none =>
      cases hp : r.produce with
      | some s =>
        obtain ⟨r', hr', hend⟩ := ih s (.produce hp) (h.produce hp)
        exact ⟨r', (Reaches.start.step (.produce hp)).trans hr', hend⟩
      | none => exact ⟨r, .start, h.ended_of_stuck hp hc⟩

/-! ## 6. What the consumer gets -/

/-- The delivery of a body whose segments fit the limit is that of its lines. -/
theorem owes_lines {options : Options} {data : Bytes}
    (hfit : Bytes.SegmentsFit options.maxLineBytes data) (t : Transcoder) (chunkSize : Nat)
    (failure : Option Bytes) :
    let body : Body := { rest := data, chunkSize, failure }
    Owes (start body t options) (t.delivery (data.bodyLines failure.isNone) body.lastFailure) := by
  intro body
  have h := owes_start body t options
  rw [Plan.delivery_ofBody _ body t 0 (LineReader.ready_empty _) rfl rfl hfit] at h
  exact h

/-- **The outcome of a stream that is drained.** Whatever the pieces in which the body arrives, the
    room of the channel and the order of the steps: the consumer receives what the transcoder brings
    for the lines of the body and then at its end, up to the first step that fails, and the stream
    ends with the error of that step or else of the body. Every run comes to that end. -/
theorem drained_outcome (t : Transcoder) (data : Bytes) (chunkSize : Nat) (failure : Option Bytes)
    (options : Options) (hfit : Bytes.SegmentsFit options.maxLineBytes data) :
    let body : Body := { rest := data, chunkSize, failure }
    let d := t.delivery (data.bodyLines failure.isNone) body.lastFailure
    (∀ r, (start body t options).Reaches r → r.Ended →
        r.received = d.events ∧ r.slot.error = d.error) ∧
      (∀ r, (start body t options).Reaches r → ∃ r', r.Reaches r' ∧ r'.Ended) ∧
      WellFounded fun r' r : Run => Advance r r' := by
  intro body d
  have howes : Owes (start body t options) d := owes_lines hfit t chunkSize failure
  refine ⟨fun r hr hend => (howes.reaches hr).of_ended hend, fun r hr => ?_, advance_wellFounded⟩
  exact (howes.reaches hr).reaches_ended

/-- A body that fails within its second event, read byte by byte through a channel of capacity 0. -/
theorem drained_outcome_cut_event :
    let body : Body :=
      { rest := Bytes.ofString "data: a\n\ndata: b", chunkSize := 1, failure := some "EOF" }
    let options : Options := { Options.default with eventCapacity := 0, maxLineBytes := 7 }
    Bytes.SegmentsFit 7 body.rest ∧
      ∀ r, (start body (.passthrough {}) options).Reaches r → r.Ended →
        r.received = [Bytes.ofString "data: a\n\n"] ∧
          r.slot.error = some (.disconnected ⟨"EOF", false⟩) := by
  have hfit : Bytes.SegmentsFit 7 (Bytes.ofString "data: a\n\ndata: b") := by
    unfold Bytes.SegmentsFit
    decide
  exact ⟨hfit, (drained_outcome (.passthrough {}) _ 1 (some "EOF") _ hfit).1⟩

/-- The end of the stream itself may fail: the name of the model is written there for the first
    time, and here it is not UTF-8. The body is empty and ends well, and yet there is an error. -/
theorem error_of_onEnd_without_lines :
    let t : Transcoder := .openaiToReplies { id := "resp_0", model := [0xFF] }
    Bytes.SegmentsFit Options.default.maxLineBytes [] ∧ Bytes.bodyLines [] true = [] ∧
      ∃ r, (start { rest := [] } t Options.default).Reaches r ∧ r.Ended ∧
        r.received = [] ∧ r.slot.error = some .wrongJsonType := by
  intro t
  have hfit : Bytes.SegmentsFit Options.default.maxLineBytes [] := by
    unfold Bytes.SegmentsFit
    decide
  have howes := owes_lines hfit t 0 none
  obtain ⟨r, hr, hend⟩ := howes.reaches_ended
  exact ⟨hfit, rfl, r, hr, hend, (howes.reaches hr).of_ended hend⟩

end Run

end ChatRelay
