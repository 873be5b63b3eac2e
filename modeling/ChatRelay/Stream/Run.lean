import ChatRelay.Options
import ChatRelay.Stream.Channel
import ChatRelay.Stream.ErrorSlot
import ChatRelay.Stream.Plan

/-!
# Running a stream

A `Run` is a producer and a consumer at one moment: what the producer still has to do, the channel
and the error slot between the two, whether the body is closed, and what the consumer has received.
Each of the two moves by atomic steps.

* `produce` is the producer's next act, and `receive` the consumer's next event; each is `none` when
  it has to wait or is at its end;
* `closeEvents` and then `closeBody` are the two steps by which a consumer cancels (`cancel`);
* `drain`, `takeEvents` and `settle` are schedules of these steps.
-/

namespace ChatRelay

structure Run where
  /-- What the producer still has to do; `none` once it has closed the channel. -/
  plan : Option Plan
  events : Channel Bytes
  bodyClosed : Bool := false
  slot : ErrorSlot := {}
  log : List LogEntry := []
  /-- The events that the consumer has received. -/
  received : List Bytes := []

namespace Run

/-- A stream that is about to run. -/
def start (body : Body) (transcoder : Transcoder) (options : Options) : Run where
  plan := some (Plan.ofBody { limit := options.maxLineBytes } body transcoder 0)
  events := { capacity := options.eventCapacity }

/-! ## 1. Steps -/

/-- The producer's next act. -/
def produce (r : Run) : Option Run :=
  match r.plan with
  | none => none
  | some .done => some { r with plan := none, events := r.events.close }
  | some (.note entry next) => some { r with plan := some next, log := r.log ++ [entry] }
  | some (.push event refused next) =>
    match r.events.push event with
    | .accepted events => some { r with plan := some next, events }
    | .refused => some { r with plan := some refused }
    | .waits => none
  | some (.read closed next) => some { r with plan := some (if r.bodyClosed then closed else next) }
  | some (.test closed next) =>
    some { r with plan := some (if r.events.closed then closed else next) }
  | some (.publish error next) => some { r with plan := some next, slot := r.slot.set error }

/-- The consumer's next event. -/
def receive (r : Run) : Option Run :=
  match r.events.pop with
  | .received event events => some { r with events, received := r.received ++ [event] }
  | .ended => none
  | .waits => none

/-- The consumer's first step of cancelling. -/
def closeEvents (r : Run) : Run :=
  { r with events := r.events.close }

/-- The consumer's second step of cancelling. -/
def closeBody (r : Run) : Run :=
  { r with bodyClosed := true }

def cancel (r : Run) : Run :=
  r.closeEvents.closeBody

/-! ## 2. Progress -/

/-- An act leaves less to do. -/
theorem plan_lt_of_produce {r r' : Run} (h : r.produce = some r') :
    sizeOf r'.plan < sizeOf r.plan := by
  obtain ⟨plan, events, bodyClosed, slot, log, received⟩ := r
  match plan with
  | none => cases h
  | some .done =>
    obtain rfl := Option.some.inj h
    show sizeOf (none : Option Plan) < sizeOf (some Plan.done)
    rw [Option.none.sizeOf_spec, Option.some.sizeOf_spec, Plan.done.sizeOf_spec]
    exact Nat.lt_succ_self 1
  | some (.note entry next) =>
    obtain rfl := Option.some.inj h
    show sizeOf (some next) < sizeOf (some (Plan.note entry next))
    rw [Option.some.sizeOf_spec, Option.some.sizeOf_spec, Plan.note.sizeOf_spec]
    omega
  | some (.push event refused next) =>
    have hs := Plan.push.sizeOf_spec event refused next
    simp only [produce] at h
    split at h
    · obtain rfl := Option.some.inj h
      show sizeOf (some next) < sizeOf (some (Plan.push event refused next))
      rw [Option.some.sizeOf_spec, Option.some.sizeOf_spec]
      omega
    · obtain rfl := Option.some.inj h
      show sizeOf (some refused) < sizeOf (some (Plan.push event refused next))
      rw [Option.some.sizeOf_spec, Option.some.sizeOf_spec]
      omega
    · cases h
  | some (.read closed next) =>
    have hs := Plan.read.sizeOf_spec closed next
    obtain rfl := Option.some.inj h
    show sizeOf (some (if bodyClosed then closed else next)) < sizeOf (some (Plan.read closed next))
    rw [Option.some.sizeOf_spec, Option.some.sizeOf_spec]
    split <;> omega
  | some (.test closed next) =>
    have hs := Plan.test.sizeOf_spec closed next
    obtain rfl := Option.some.inj h
    show sizeOf (some (if events.closed then closed else next)) <
      sizeOf (some (Plan.test closed next))
    rw [Option.some.sizeOf_spec, Option.some.sizeOf_spec]
    split <;> omega
  | some (.publish error next) =>
    obtain rfl := Option.some.inj h
    show sizeOf (some next) < sizeOf (some (Plan.publish error next))
    rw [Option.some.sizeOf_spec, Option.some.sizeOf_spec, Plan.publish.sizeOf_spec]
    omega

/-- A consumer's step leaves the plan as it is and fewer events in the channel. -/
theorem queue_lt_of_receive {r r' : Run} (h : r.receive = some r') :
    r'.plan = r.plan ∧ r'.events.queue.length < r.events.queue.length := by
  obtain ⟨plan, ⟨capacity, queue, closed⟩, bodyClosed, slot, log, received⟩ := r
  cases queue with
  | nil => cases closed <;> simp [receive, Channel.pop] at h
  | cons event rest =>
    simp only [receive, Channel.pop, Option.some.injEq] at h
    subst h
    simp

/-! ## 3. Schedules -/

/-- Both sides move, the consumer first, as long as the consumer wants to and one of them can. -/
def runWhile (wanted : Run → Bool) (r : Run) : Run :=
  if wanted r then
    match _hc : r.receive with
    | some r => runWhile wanted r
    | none =>
      match _hp : r.produce with
      | some r => runWhile wanted r
      | none => r
  else r
termination_by (sizeOf r.plan, r.events.queue.length)
decreasing_by
  · have h := queue_lt_of_receive _hc
    rw [h.1]
    exact Prod.Lex.right _ h.2
  · exact Prod.Lex.left _ _ (plan_lt_of_produce _hp)

/-- The run in which the consumer takes every event. -/
def drain (r : Run) : Run :=
  r.runWhile fun _ => true

/-- The run up to the moment when the consumer has a number of events, or the end. -/
def takeEvents (count : Nat) (r : Run) : Run :=
  r.runWhile fun r => r.received.length < count

/-- The run in which the consumer waits for the producer and takes nothing. -/
def settle (r : Run) : Run :=
  match _h : r.produce with
  | some r => settle r
  | none => r
termination_by sizeOf r.plan
decreasing_by exact plan_lt_of_produce _h

end Run

end ChatRelay
