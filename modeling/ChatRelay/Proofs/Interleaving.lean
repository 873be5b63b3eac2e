import ChatRelay.Proofs.Draining

/-!
# Producer and consumer in any order

All that the two sides of a running stream may do, in any order. The consumer receives, and at any
moment it may cancel, which closes the channel first and the body second (`Run.Move`). `Run.Leads`
keeps a history of the events that the channel has accepted.

* `Accounts` -- the INVARIANT of the channel: what was received and what waits are the accepted
  events in their order, and no more wait than there is room for;
* `Follows` -- the INVARIANT of the plan: these are the first events of what the plan comes to when
  nobody cancels, and while the channel is open the plan still owes the others;
* `channel_safety` -- both for a producer that delivers events, sets errors and closes, with what a
  consumer knows when it is told of the end.
-/

namespace ChatRelay

namespace Run

/-! ## 1. Steps -/

/-- One atomic step of either side, with the events that it puts into the channel. A consumer that
    cancels closes the channel before the body. -/
inductive Move : Run → List Bytes → Run → Prop where
  | produce {r r' : Run} (h : r.produce = some r') : Move r r.accepted?.toList r'
  | receive {r r' : Run} (h : r.receive = some r') : Move r [] r'
  | closeEvents (r : Run) : Move r [] r.closeEvents
  | closeBody {r : Run} (h : r.events.closed = true) : Move r [] r.closeBody

/-- The runs that any order of such steps leads to, with the events that the channel has accepted
    on the way. -/
inductive Leads (r : Run) : List Bytes → Run → Prop where
  | start : Leads r [] r
  | step {accepted new : List Bytes} {s t : Run} (h : Leads r accepted s) (hs : Move s new t) :
      Leads r (accepted ++ new) t

variable {r r' s t : Run} {accepted new more : List Bytes}

/-- Steps without cancels are among these. -/
theorem Reaches.leads (h : r.Reaches s) : ∃ accepted, r.Leads accepted s := by
  induction h with
  | start => exact ⟨[], .start⟩
  | step _ hs ih =>
    obtain ⟨accepted, h⟩ := ih
    cases hs with
    | produce hp => exact ⟨_, h.step (.produce hp)⟩
    | receive hc => exact ⟨_, h.step (.receive hc)⟩

/-! ## 2. The channel -/

/-- **The invariant of the channel** with the history of the events that it has accepted. -/
structure Accounts (r : Run) (capacity : Nat) (accepted : List Bytes) : Prop where
  capacity_eq : r.events.capacity = capacity
  accepted_eq : r.received ++ r.events.queue = accepted
  queue_le : r.events.queue.length ≤ r.events.room

variable {capacity : Nat}

theorem Accounts.act (h : s.Accounts capacity accepted) (hs : Act s new t) :
    t.Accounts capacity (accepted ++ new) := by
  obtain ⟨hcapacity, haccepted, hqueue⟩ := h
  cases hs with
  | accepted hp hopen hroom =>
    refine ⟨hcapacity, ?_, ?_⟩
    · rw [← haccepted, List.append_assoc]
    · show (s.events.queue ++ [_]).length ≤ s.events.room
      rw [List.length_append]
      exact hroom
  | _ => exact ⟨hcapacity, by rw [List.append_nil]; exact haccepted, hqueue⟩

theorem Accounts.receive (h : s.Accounts capacity accepted) (hs : s.receive = some t) :
    t.Accounts capacity accepted := by
  obtain ⟨event, rest, hwaits, rfl⟩ := receive_eq_some hs
  obtain ⟨hcapacity, haccepted, hqueue⟩ := h
  rw [hwaits] at haccepted hqueue
  refine ⟨hcapacity, ?_, ?_⟩
  · rw [← haccepted]
    exact List.append_assoc _ _ _
  · exact Nat.le_trans (Nat.le_succ _) hqueue

theorem Accounts.move (h : s.Accounts capacity accepted) (hs : Move s new t) :
    t.Accounts capacity (accepted ++ new) := by
  cases hs with
  | produce hp => exact h.act (act_of_produce hp)
  | receive hc => rw [List.append_nil]; exact h.receive hc
  | closeEvents => rw [List.append_nil]; exact ⟨h.capacity_eq, h.accepted_eq, h.queue_le⟩
  | closeBody => rw [List.append_nil]; exact ⟨h.capacity_eq, h.accepted_eq, h.queue_le⟩

/-- **The invariant of the channel on every run that is reached.** -/
theorem Leads.accounts (h : r.Leads accepted s) (hr : r.Accounts capacity []) :
    s.Accounts capacity accepted := by
  induction h with
  | start => exact hr
  | step _ hs ih => exact ih.move hs

/-- An act at a closed channel leaves it as it is. -/
theorem Act.of_closed (hs : Act s new t) (hclosed : s.events.closed = true) :
    new = [] ∧ t.events.closed = true ∧ t.received = s.received ∧
      t.events.queue = s.events.queue := by
  cases hs with
  | accepted _ hopen _ =>
    rw [hclosed] at hopen
    cases hopen
  | close => exact ⟨rfl, rfl, rfl, rfl⟩
  | _ => exact ⟨rfl, hclosed, rfl, rfl⟩

/-- A step at a closed channel puts nothing into it and leaves it closed. -/
theorem Move.of_closed (hs : Move s new t) (hclosed : s.events.closed = true) :
    new = [] ∧ t.events.closed = true := by
  cases hs with
  | produce hp =>
    obtain ⟨hnone, hstill, -, -⟩ := (act_of_produce hp).of_closed hclosed
    exact ⟨hnone, hstill⟩
  | receive hc =>
    obtain ⟨event, rest, -, rfl⟩ := receive_eq_some hc
    exact ⟨rfl, hclosed⟩
  | closeEvents => exact ⟨rfl, rfl⟩
  | closeBody => exact ⟨rfl, hclosed⟩

/-- **Nothing enters a closed channel**, however the run goes on. -/
theorem Leads.of_closed (h : s.Leads more t) (hclosed : s.events.closed = true) :
    more = [] ∧ t.events.closed = true := by
  induction h with
  | start => exact ⟨rfl, hclosed⟩
  | step _ hs ih =>
    obtain ⟨rfl, hnow⟩ := ih
    exact hs.of_closed hnow

/-! ## 3. Waiting -/

/-- The producer has something left to do and cannot do it. -/
def ProducerWaits (r : Run) : Prop :=
  r.plan.isSome = true ∧ r.produce = none

/-- The consumer asks for an event, and there is neither one nor the end. -/
def ConsumerWaits (r : Run) : Prop :=
  r.events.pop = .waits

/-- **The two sides never wait for each other.** -/
theorem not_both_wait (r : Run) : ¬ (r.ProducerWaits ∧ r.ConsumerWaits) := by
  intro h
  obtain ⟨⟨hplan, hproduce⟩, hconsumer⟩ := h
  have hfull := room_le_of_produce hplan hproduce
  rw [(Channel.pop_waits hconsumer).1] at hfull
  exact absurd hfull (Nat.not_le.mpr r.events.room_pos)

/-! ## 4. The plan -/

/-- **The invariant of the plan**: what was received and what waits are the first events of the
    delivery; and while the channel is open nobody has cancelled, and the plan owes the others. -/
structure Follows (r : Run) (d : Delivery) : Prop where
  first : r.received ++ r.events.queue <+: d.events
  owes : r.events.closed = false → r.Owes d

variable {d : Delivery}

/-- A run that nobody has cancelled is on course. -/
theorem Owes.follows (h : r.Owes d) : r.Follows d where
  first := ⟨_, h.events_eq⟩
  owes _ := h

/-- Once the channel is closed it only matters that nothing is added. -/
theorem follows_of_closed (hclosed : r.events.closed = true)
    (hfirst : r.received ++ r.events.queue <+: d.events) : r.Follows d where
  first := hfirst
  owes hopen := by
    rw [hclosed] at hopen
    cases hopen

theorem Follows.produce (h : s.Follows d) (hs : s.produce = some t) : t.Follows d := by
  cases hclosed : s.events.closed with
  | false => exact ((h.owes hclosed).produce hs).follows
  | true =>
    obtain ⟨-, hstill, hreceived, hqueue⟩ := (act_of_produce hs).of_closed hclosed
    refine follows_of_closed hstill ?_
    rw [hreceived, hqueue]
    exact h.first

theorem Follows.receive (h : s.Follows d) (hs : s.receive = some t) : t.Follows d := by
  cases hclosed : s.events.closed with
  | false => exact ((h.owes hclosed).receive hs).follows
  | true =>
    obtain ⟨event, rest, hwaits, rfl⟩ := receive_eq_some hs
    refine follows_of_closed hclosed ?_
    have hfirst := h.first
    rw [hwaits] at hfirst
    rwa [List.append_assoc]

theorem Follows.move (h : s.Follows d) (hs : Move s new t) : t.Follows d := by
  cases hs with
  | produce hp => exact h.produce hp
  | receive hc => exact h.receive hc
  | closeEvents => exact follows_of_closed rfl h.first
  | closeBody hclosed => exact follows_of_closed hclosed h.first

/-- **The invariant of the plan on every run that is reached.** -/
theorem Leads.follows (h : r.Leads accepted s) (hr : r.Follows d) : s.Follows d := by
  induction h with
  | start => exact hr
  | step _ hs ih => exact ih.move hs

end Run

/-! ## 5. A producer of events -/

namespace Plan

/-- Sets errors in turn. -/
def publishes (errors : List RelayError) (next : Plan) : Plan :=
  errors.foldr publish next

/-- The plan of a producer that delivers events, sets errors and closes the channel. -/
def producing (events : List Bytes) (errors : List RelayError) : Plan :=
  pushes events 0 (publishes errors done)

theorem delivery_publishes (errors : List RelayError) :
    (publishes errors done).delivery = { error := errors.head? } := by
  induction errors with
  | nil => rfl
  | cons error errors ih =>
    show { (publishes errors done).delivery with error := some error } = _
    rw [ih]
    rfl

theorem delivery_producing (events : List Bytes) (errors : List RelayError) :
    (producing events errors).delivery = { events, error := errors.head? } := by
  rw [producing, delivery_pushes, delivery_publishes, Delivery.after, List.append_nil]

end Plan

namespace Run

/-- A producer of events that is about to run. -/
def producing (capacity : Nat) (events : List Bytes) (errors : List RelayError) : Run where
  plan := some (Plan.producing events errors)
  events := { capacity }

variable {capacity : Nat} {events : List Bytes} {errors : List RelayError}

theorem owes_producing :
    (producing capacity events errors).Owes { events, error := errors.head? } where
  bodyOpen := rfl
  closed_eq := rfl
  events_eq := by
    show (Plan.producing events errors).delivery.events = events
    rw [Plan.delivery_producing]
  error_eq := by
    show (Plan.producing events errors).delivery.error = errors.head?
    rw [Plan.delivery_producing]

/-- **The channel is safe in every order of steps.** Whatever the two sides have done, also when the
    consumer has cancelled:

    * what was received and what waits are the accepted events in their order, and these are the
      first of the producer's;
    * no more wait than there is room for, a capacity of 0 counting as 1;
    * nothing is accepted any more once the channel is closed;
    * the two sides do not both wait.

    And a consumer that never cancels and is told of the end has received all events, and the error
    slot holds the first error already. -/
theorem channel_safety (capacity : Nat) (events : List Bytes) (errors : List RelayError) :
    (∀ accepted r, (producing capacity events errors).Leads accepted r →
        r.received ++ r.events.queue = accepted ∧ accepted <+: events ∧
          r.events.queue.length ≤ max 1 capacity ∧
          (r.events.closed = true → ∀ more r', r.Leads more r' → more = []) ∧
          ¬ (r.ProducerWaits ∧ r.ConsumerWaits)) ∧
      ∀ r, (producing capacity events errors).Reaches r → r.Ended →
        r.received = events ∧ r.slot.error = errors.head? := by
  refine ⟨fun accepted r hr => ?_, fun r hr hend => (owes_producing.reaches hr).of_ended hend⟩
  have haccounts : r.Accounts capacity accepted := hr.accounts ⟨rfl, rfl, Nat.zero_le _⟩
  have hfollows : r.Follows { events, error := errors.head? } :=
    hr.follows owes_producing.follows
  refine ⟨haccounts.accepted_eq, ?_, ?_, ?_, not_both_wait r⟩
  · rw [← haccounts.accepted_eq]
    exact hfollows.first
  · rw [← haccounts.capacity_eq]
    exact haccounts.queue_le
  · exact fun hclosed more r' hmore => (hmore.of_closed hclosed).1

/-- Two events through a channel of capacity 0, and two errors. The second event has to wait until
    the first one is received, and the second error changes nothing. -/
theorem channel_safety_one_place :
    let r₀ := producing 0 ["a", "b"] [.reported "x", .cancelled]
    (∃ r, r₀.Leads ["a"] r ∧ r.ProducerWaits ∧ r.events.queue.length ≤ 1 ∧
        ¬ (r.ProducerWaits ∧ r.ConsumerWaits)) ∧
      ∃ r, r₀.Reaches r ∧ r.Ended ∧ r.received = [Bytes.ofString "a", Bytes.ofString "b"] ∧
        r.slot.error = some (.reported "x") := by
  intro r₀
  have hsafe := channel_safety 0 ["a", "b"] [.reported "x", .cancelled]
  have hfull : r₀.Leads ["a"] _ := .step .start (.produce rfl)
  have hall : r₀.Reaches _ :=
    (((((((Reaches.start.step (.produce rfl)).step (.receive rfl)).step (.produce rfl)).step
      (.produce rfl)).step (.produce rfl)).step (.receive rfl)).step (.produce rfl))
  obtain ⟨-, -, hroom, -, hneither⟩ := hsafe.1 _ _ hfull
  exact ⟨⟨_, hfull, ⟨rfl, rfl⟩, hroom, hneither⟩, _, hall, rfl, hsafe.2 _ hall rfl⟩

end Run

end ChatRelay
