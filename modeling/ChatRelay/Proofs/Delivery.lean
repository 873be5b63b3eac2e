import ChatRelay.Proofs.Lines
import ChatRelay.Stream.Plan

/-!
# What a stream comes to

A `Delivery` is what a stream comes to when nobody cancels it: the events and the error at the end.
It is said twice, and the two agree.

* `Transcoder.delivery` hands the lines of a body to a transcoder, one after another, and then its
  end; neither pieces of a body nor a buffer occur in it;
* `Plan.delivery` is what a producer's plan comes to;
* `delivery_ofBody`: the plan for a body comes to what its lines come to.
-/

namespace ChatRelay

structure Delivery where
  events : List Bytes := []
  /-- The error that the stream ends with. -/
  error : Option RelayError := none
  deriving DecidableEq

namespace Delivery

/-- The same delivery with further events before it. -/
def after (events : List Bytes) (d : Delivery) : Delivery :=
  { d with events := events ++ d.events }

theorem after_cons (event : Bytes) (events : List Bytes) (d : Delivery) :
    after (event :: events) d = after [event] (after events d) := rfl

end Delivery

/-! ## 1. Of a transcoder -/

namespace Transcoder

/-- The error at the end of a stream whose last read failed: the failure, unless the client left
    after it had been told to call tools. -/
def endError (t : Transcoder) (failure : Option Disconnect) : Option RelayError :=
  failure.bind fun d => if t.toolUseStop && d.byClient then none else some (.disconnected d)

/-- What the lines that are still to come and the end of the body come to. A step that fails ends
    the stream with its error, and nothing follows it. -/
def delivery : Transcoder → List Bytes → Option Disconnect → Delivery
  | t, [], failure =>
    match t.onEnd with
    | .error e => { error := some e }
    | .ok step => { events := step.events, error := step.state.endError failure }
  | t, line :: lines, failure =>
    match t.onLine line with
    | .error e => { error := some e }
    | .ok step => (delivery step.state lines failure).after step.events

end Transcoder

/-! ## 2. Of a plan -/

namespace Plan

/-- What a plan comes to when nobody cancels. The first error stays. -/
def delivery : Plan → Delivery
  | done => {}
  | note _ next => next.delivery
  | push event _ next => next.delivery.after [event]
  | read _ next => next.delivery
  | test _ next => next.delivery
  | publish error next => { next.delivery with error := some error }

theorem delivery_notes (entries : List LogEntry) (next : Plan) :
    (notes entries next).delivery = next.delivery := by
  induction entries with
  | nil => rfl
  | cons entry entries ih => exact ih

theorem delivery_pushes (events : List Bytes) (lines : Nat) (next : Plan) :
    (pushes events lines next).delivery = next.delivery.after events := by
  induction events with
  | nil => rfl
  | cons event events ih =>
    rw [Delivery.after_cons, ← ih]
    rfl

theorem delivery_ofStep (step : Step Transcoder Bytes) (lines : Nat) (next : Plan) :
    (ofStep step lines next).delivery = next.delivery.after step.events := by
  rw [ofStep, delivery_pushes, delivery_notes]

theorem delivery_fail (error : RelayError) : (fail error).delivery = { error := some error } := rfl

theorem delivery_verdict (t : Transcoder) (lines : Nat) (d : Disconnect) :
    (verdict t lines d).delivery = { error := t.endError (some d) } := by
  simp only [verdict, delivery, Transcoder.endError, Option.bind_some]
  split <;> rfl

/-- The end of a plan is the end of a stream without further lines. -/
theorem delivery_ending (t : Transcoder) (lines : Nat) (failure : Option Disconnect) :
    (ending t lines failure).delivery = t.delivery [] failure := by
  rw [ending, Transcoder.delivery]
  cases t.onEnd with
  | error e => exact delivery_fail e
  | ok step =>
    show (ofStep step lines _).delivery = _
    rw [delivery_ofStep]
    cases failure with
    | none => simp [delivery, Delivery.after, Transcoder.endError]
    | some d => simp [delivery_verdict, Delivery.after]

/-- What follows the last read: the tail is one more line unless there is none or the body
    failed. -/
theorem delivery_ofTail (outcome : LineReader.Outcome) (t : Transcoder) (lines : Nat) :
    (ofTail outcome t lines).delivery =
      match outcome with
      | .error d => t.delivery [] (some d)
      | .ok line => t.delivery line.toList none := by
  cases outcome with
  | error d => exact delivery_ending t lines (some d)
  | ok line =>
    cases line with
    | none => exact delivery_ending t lines none
    | some line =>
      simp only [ofTail, Option.toList_some, Transcoder.delivery]
      cases t.onLine line with
      | error e => exact delivery_fail e
      | ok step =>
        show (ofStep step _ _).delivery = _
        rw [delivery_ofStep, delivery_ending]
        rfl

end Plan

/-! ## 3. Of a body -/

namespace Body

/-- The failure that ends the body in place of its end. -/
def lastFailure (b : Body) : Option Disconnect :=
  b.failure.map fun message => ⟨message, false⟩

/-- **A read of an open body** takes a piece off what is still to come, or is the last one. -/
theorem read_cases {b : Body} (hopen : b.closed = false) :
    (b.rest = [] ∧ b.read = (b.lastFailure.elim (.bytes []) .failed, b)) ∨
      ∃ x xs rest, b.rest = x :: xs ++ rest ∧
        b.read = (.bytes (x :: xs), { b with rest := rest }) := by
  cases hrest : b.rest with
  | nil =>
    refine Or.inl ⟨rfl, ?_⟩
    unfold read lastFailure
    cases hf : b.failure <;> simp [hopen, hrest]
  | cons y ys =>
    have hpos := b.pieceSize_pos
    obtain ⟨n, hn⟩ : ∃ n, b.pieceSize = n + 1 := ⟨b.pieceSize - 1, by omega⟩
    refine Or.inr ⟨y, ys.take n, ys.drop n, ?_, ?_⟩
    · rw [List.cons_append, List.take_append_drop]
    · simp [read, hopen, hrest, hn]

end Body

open Bytes in
/-- **The plan for a body comes to what its lines come to**, however the body is cut into pieces. -/
theorem Plan.delivery_ofBody (reader : LineReader) (body : Body) (t : Transcoder) (lines : Nat)
    (hr : reader.Ready) (hf : reader.failure = none) (hopen : body.closed = false)
    (hfit : SegmentsFit reader.limit (reader.pending ++ body.rest)) :
    (ofBody reader body t lines).delivery =
      t.delivery (bodyLines (reader.pending ++ body.rest) body.failure.isNone)
        body.lastFailure := by
  fun_induction ofBody reader body t lines with
  | case1 reader body t lines line next hscan e he =>
    obtain ⟨-, -, -, segment, hno, hpend, rfl⟩ := LineReader.scan_line hr hscan
    rw [hpend, List.append_assoc, List.cons_append, bodyLines_append_newline hno,
      Transcoder.delivery, he]
    exact delivery_fail e
  | case2 reader body t lines line next hscan step hstep ih =>
    obtain ⟨hready, hlimit, hfail, segment, hno, hpend, rfl⟩ := LineReader.scan_line hr hscan
    rw [hpend, List.append_assoc, List.cons_append] at hfit
    rw [hpend, List.append_assoc, List.cons_append, bodyLines_append_newline hno,
      Transcoder.delivery, hstep]
    show (ofStep step _ _).delivery = Delivery.after _ _
    rw [delivery_ofStep, ih hready (hfail.trans hf) hopen (hlimit ▸ hfit.tail hno)]
  | case3 reader body t lines next hscan =>
    obtain ⟨hno, hlt⟩ := LineReader.scan_overLimit hr hscan
    exact absurd (hfit.length_le hno) (by omega)
  | case4 reader body t lines next hscan ih =>
    obtain ⟨hready, hlimit, hfail, hpend, hno, hle⟩ := LineReader.scan_hungry hr hscan
    have hnextFail : next.failure = none := hfail.trans hf
    rw [delivery]
    rcases Body.read_cases hopen with ⟨hrest, hread⟩ | ⟨x, xs, rest, hrest, hread⟩
    · split
      · rename_i hbytes
        rw [hread] at hbytes
        cases hd : body.lastFailure <;> simp [hd] at hbytes
      · rename_i outcome _ _ hlast
        rw [hread] at hlast
        cases hlast
        rw [hrest, List.append_nil, bodyLines_of_notMem hno, delivery_ofTail]
        cases hend : body.failure with
        | none =>
          simp only [Body.lastFailure, hend, Option.map_none, Option.elim_none,
            LineReader.finish_fill_end hnextFail, hpend]
          by_cases hempty : reader.pending = [] <;> simp [hempty]
        | some message =>
          simp only [Body.lastFailure, hend, Option.map_some, Option.elim_some,
            LineReader.finish_fill_failed]
          simp
    · have hall : (next.fill (.bytes (x :: xs))).pending ++ rest = reader.pending ++ body.rest := by
        rw [LineReader.pending_fill, hpend, hrest, List.append_assoc]
      have hnext := ih x xs _ hread (hready.fill x xs) hnextFail hopen
        (hall.symm ▸ (show (next.fill (.bytes (x :: xs))).limit = _ from hlimit) ▸ hfit)
      split
      · rename_i hbytes
        rw [hread] at hbytes
        cases hbytes
        rw [hnext, hall]
        rfl
      · rename_i hnot hlast
        rw [hread] at hlast
        cases hlast
        exact (hnot x xs rfl).elim

end ChatRelay
