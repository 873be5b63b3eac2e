import ChatRelay.Proofs.Draining
import ChatRelay.Proofs.ReadingLines
import ChatRelay.Proofs.Transcript

/-!
# How a stream ends

The reading of a body ends when there is nothing more, when a line is over the limit or when the
body fails. What a stream comes to follows from the lines that were read and from that failure, for
every body and every limit.

* `LineReader.Ends` -- the calls up to the one that brings no line, with the failure that it brings
  in place of the end;
* `Plan.exists_ends` -- the plan for a body comes to what these lines and this failure come to;
* `Run.ComesTo` -- what a run comes to in every order of steps: `Run.exists_comesTo` for any body;
* `Transcoder.delivery_of_feed`, `Transcoder.exists_of_feed_error` -- the lines pass and the end
  follows, or the first one that fails ends the stream.
-/

namespace ChatRelay

/-! ## 1. Reading -/

namespace LineReader

section

variable {σ : Type} [ByteSource σ]

/-- **The lines that calls bring**, one after another, until a call brings none, and the failure
    that this call brings if it does not say that there is nothing more. -/
inductive Ends : LineReader → σ → List Bytes → Option Disconnect → Prop where
  | done {r next : LineReader} {source after : σ}
      (call : r.nextLine source = (.ok none, next, after)) : Ends r source [] none
  | failed {r next : LineReader} {source after : σ} {d : Disconnect}
      (call : r.nextLine source = (.error d, next, after)) : Ends r source [] (some d)
  | line {r next : LineReader} {source after : σ} {content : Bytes} {lines : List Bytes}
      {lost : Option Disconnect} (call : r.nextLine source = (.ok (some content), next, after))
      (later : Ends next after lines lost) : Ends r source (content :: lines) lost

variable {r next : LineReader} {source : σ} {lines : List Bytes}

/-- Calls up to the end of the source. -/
theorem Reads.ends (h : Reads r source lines) : Ends r source lines none := by
  induction h with
  | done call => exact .done call
  | line call _ ih => exact .line call ih

/-- The calls end in the same way every time. -/
theorem Ends.unique {lost lost' : Option Disconnect} {lines' : List Bytes}
    (h : Ends r source lines lost) (h' : Ends r source lines' lost') :
    lines = lines' ∧ lost = lost' := by
  induction h generalizing lines' with
  | done call =>
    cases h' with
    | done => exact ⟨rfl, rfl⟩
    | failed call' | line call' =>
      rw [call] at call'
      cases call'
  | failed call =>
    cases h' with
    | failed call' =>
      rw [call] at call'
      cases call'
      exact ⟨rfl, rfl⟩
    | done call' | line call' =>
      rw [call] at call'
      cases call'
  | line call _ ih =>
    cases h' with
    | line call' later' =>
      rw [call] at call'
      cases call'
      obtain ⟨rfl, rfl⟩ := ih later'
      exact ⟨rfl, rfl⟩
    | done call' | failed call' =>
      rw [call] at call'
      cases call'

theorem nextLine_of_overLimit (hscan : r.scan = .overLimit next) :
    r.nextLine source = (.error tooLong, next, source) := by
  rw [nextLine]
  split
  · rename_i heq
    rw [hscan] at heq
    cases heq
  · rename_i heq
    rw [hscan] at heq
    cases heq
    rfl
  · rename_i heq
    rw [hscan] at heq
    cases heq

end

end LineReader

/-! ## 2. Plans -/

namespace Plan

variable {reader next : LineReader} {line : Bytes}

theorem ofBody_of_line (hscan : reader.scan = .line line next) (body : Body) (t : Transcoder)
    (lines : Nat) :
    ofBody reader body t lines =
      match t.onLine line with
      | .error e => fail e
      | .ok step => ofStep step (lines + 1) (ofBody next body step.state (lines + 1)) := by
  rw [ofBody]
  split
  · rename_i heq
    rw [hscan] at heq
    cases heq
    rfl
  · rename_i heq
    rw [hscan] at heq
    cases heq
  · rename_i heq
    rw [hscan] at heq
    cases heq

theorem ofBody_of_overLimit (hscan : reader.scan = .overLimit next) (body : Body) (t : Transcoder)
    (lines : Nat) :
    ofBody reader body t lines = ending t lines (some LineReader.tooLong) := by
  rw [ofBody]
  split
  · rename_i heq
    rw [hscan] at heq
    cases heq
  · rfl
  · rename_i heq
    rw [hscan] at heq
    cases heq

theorem ofBody_of_hungry (hscan : reader.scan = .hungry next) (body : Body) (t : Transcoder)
    (lines : Nat) :
    ofBody reader body t lines =
      read (ending t lines (some Body.closedFailure))
        (match body.read with
          | (.bytes (x :: xs), body) => ofBody (next.fill (.bytes (x :: xs))) body t lines
          | (outcome, _) => ofTail (next.fill outcome).finish.1 t lines) := by
  rw [ofBody]
  split
  · rename_i heq
    rw [hscan] at heq
    cases heq
  · rename_i heq
    rw [hscan] at heq
    cases heq
  · rename_i heq
    rw [hscan] at heq
    cases heq
    congr 1
    split
    · rename_i hbytes
      rw [hbytes]
    · rename_i outcome _ hnot hlast
      rw [hlast]
      split
      · rename_i heq
        cases heq
        exact (hnot _ _ rfl).elim
      · rename_i heq
        cases heq
        rfl

/-- The plan for a body of which nothing is still to come. -/
theorem ofBody_of_last {body : Body} (hscan : reader.scan = .hungry next)
    (hread : body.read = (body.lastFailure.elim (.bytes []) .failed, body)) (t : Transcoder)
    (lines : Nat) :
    ofBody reader body t lines =
      read (ending t lines (some Body.closedFailure))
        (ofTail (next.fill (body.lastFailure.elim (.bytes []) .failed)).finish.1 t lines) := by
  rw [ofBody_of_hungry hscan, hread]
  cases body.lastFailure <;> rfl

/-- The last read of a body: it fails, or what is held is the last line. -/
theorem exists_ends_of_last {body : Body} (hr : reader.Ready) (hf : reader.failure = none)
    (hreading : reader.ended = false) (hscan : reader.scan = .hungry next)
    (hread : body.read = (body.lastFailure.elim (.bytes []) .failed, body)) :
    ∃ lines lost, reader.Ends body lines lost ∧
      ∀ t n, (ofBody reader body t n).delivery = t.delivery lines lost := by
  obtain ⟨hready, -, hfail, -⟩ := LineReader.scan_hungry hr hscan
  have hnextFail : next.failure = none := hfail.trans hf
  have hcall := LineReader.nextLine_of_hungry body hscan
  have hsource : ByteSource.read body = (body.lastFailure.elim (.bytes []) .failed, body) := hread
  rw [LineReader.ended_of_scan_hungry hscan, hreading, if_neg Bool.false_ne_true, hsource] at hcall
  have hplan (t : Transcoder) (n : Nat) :
      (ofBody reader body t n).delivery =
        (ofTail (next.fill (body.lastFailure.elim (.bytes []) .failed)).finish.1 t n).delivery := by
    rw [ofBody_of_last hscan hread, delivery]
  cases hlast : body.lastFailure with
  | some d =>
    rw [hlast] at hcall hplan
    refine ⟨[], some d, .failed hcall, fun t n => ?_⟩
    rw [hplan, delivery_ofTail]
    rfl
  | none =>
    rw [hlast] at hcall hplan
    simp only [Option.elim_none] at hcall hplan
    have hexhausted := LineReader.exhausted_finish_fill hready hnextFail
    have hfinish := LineReader.finish_fill_end hnextFail
    rw [hfinish] at hcall hplan
    split at hcall
    · refine ⟨[], none, .done hcall, fun t n => ?_⟩
      rw [hplan, if_pos ‹_›, delivery_ofTail]
      rfl
    · refine ⟨_, none, .line hcall (hexhausted.reads body).ends, fun t n => ?_⟩
      rw [hplan, if_neg ‹_›, delivery_ofTail]
      rfl

/-- **The plan for a body comes to what its lines and the end of its reading come to**, for every
    limit on lines, and for every transcoder the lines are the same. -/
theorem exists_ends (reader : LineReader) (body : Body) (hr : reader.Ready)
    (hf : reader.failure = none) (hreading : reader.ended = false) (hopen : body.closed = false) :
    ∃ lines lost, reader.Ends body lines lost ∧
      ∀ t n, (ofBody reader body t n).delivery = t.delivery lines lost := by
  cases hscan : reader.scan with
  | line content next =>
    obtain ⟨hready, -, hfail, -⟩ := LineReader.scan_line hr hscan
    obtain ⟨lines, lost, hends, hall⟩ := exists_ends next body hready (hfail.trans hf)
      ((LineReader.ended_of_scan_line hscan).trans hreading) hopen
    refine ⟨content :: lines, lost, .line (LineReader.nextLine_of_line hscan) hends,
      fun t n => ?_⟩
    rw [ofBody_of_line hscan, Transcoder.delivery]
    cases t.onLine content with
    | error e => exact delivery_fail e
    | ok step =>
      show (ofStep step _ _).delivery = _
      rw [delivery_ofStep, hall]
  | overLimit next =>
    refine ⟨[], some LineReader.tooLong, .failed (LineReader.nextLine_of_overLimit hscan),
      fun t n => ?_⟩
    rw [ofBody_of_overLimit hscan, delivery_ending]
  | hungry next =>
    obtain ⟨-, hread⟩ | ⟨x, xs, rest, hrest, hread⟩ := Body.read_cases hopen
    · exact exists_ends_of_last hr hf hreading hscan hread
    · have hlt : rest.length < body.rest.length := by
        rw [hrest, List.length_append, List.length_cons]
        omega
      obtain ⟨hready, -, hfail, -⟩ := LineReader.scan_hungry hr hscan
      have hstill := (LineReader.ended_of_scan_hungry hscan).trans hreading
      obtain ⟨lines, lost, hends, hall⟩ := exists_ends (next.fill (.bytes (x :: xs)))
        { body with rest } (hready.fill x xs) (hfail.trans hf) hstill hopen
      have hsource : ByteSource.read body = (.bytes (x :: xs), { body with rest }) := hread
      have hcall := LineReader.nextLine_of_hungry body hscan
      rw [hstill, if_neg Bool.false_ne_true, hsource] at hcall
      refine ⟨lines, lost, ?_, fun t n => ?_⟩
      · cases hends with
        | done call => exact .done (hcall.trans call)
        | failed call => exact .failed (hcall.trans call)
        | line call later => exact .line (hcall.trans call) later
      · rw [ofBody_of_hungry hscan, hread, delivery, ← hall]
termination_by (body.rest.length, reader.buffer.length - reader.scanFrom)
decreasing_by
  · exact Prod.Lex.right _ (LineReader.scan_line_lt hscan)
  · exact Prod.Lex.left _ _ hlt

end Plan

/-! ## 3. Runs -/

namespace Run

/-- **What a run comes to in every order of steps**: whenever the consumer is told of the end it has
    received these events, and this is the error; and every run comes to that end. -/
structure ComesTo (r : Run) (d : Delivery) : Prop where
  outcome : ∀ s, r.Reaches s → s.Ended → s.received = d.events ∧ s.slot.error = d.error
  ends : ∀ s, r.Reaches s → ∃ s', s.Reaches s' ∧ s'.Ended

variable {r : Run} {d : Delivery}

theorem ComesTo.unique {d' : Delivery} (h : r.ComesTo d) (h' : r.ComesTo d') : d = d' := by
  obtain ⟨s, hs, hend⟩ := h.ends r .start
  obtain ⟨hevents, herror⟩ := h.outcome s hs hend
  obtain ⟨hevents', herror'⟩ := h'.outcome s hs hend
  obtain ⟨events, error⟩ := d
  obtain rfl : events = d'.events := hevents.symm.trans hevents'
  obtain rfl : error = d'.error := herror.symm.trans herror'
  rfl

theorem Owes.comesTo (h : r.Owes d) : r.ComesTo d where
  outcome _ hr hend := (h.reaches hr).of_ended hend
  ends _ hr := (h.reaches hr).reaches_ended

/-- What comes of a body whose segments fit the limit. -/
theorem comesTo_lines (body : Body) (hopen : body.closed = false) {options : Options}
    (hfit : Bytes.SegmentsFit options.maxLineBytes body.rest) (t : Transcoder) :
    (start body t options).ComesTo
      (t.delivery (body.rest.bodyLines body.failure.isNone) body.lastFailure) := by
  obtain ⟨rest, chunkSize, failure, closed⟩ := body
  obtain rfl : closed = false := hopen
  exact (owes_lines hfit t chunkSize failure).comesTo

/-- **What a stream comes to**, for every body that is open and for every limit: what the lines that
    are read come to, and the failure that ends their reading. -/
theorem exists_comesTo (body : Body) (hopen : body.closed = false) (options : Options) :
    ∃ lines lost, LineReader.Ends { limit := options.maxLineBytes } body lines lost ∧
      ∀ t, (start body t options).ComesTo (t.delivery lines lost) := by
  obtain ⟨lines, lost, hends, hall⟩ :=
    Plan.exists_ends { limit := options.maxLineBytes } body (LineReader.ready_empty _) rfl rfl hopen
  refine ⟨lines, lost, hends, fun t => ?_⟩
  rw [← hall t 0]
  exact (owes_start body t options).comesTo

end Run

/-! ## 4. Deliveries -/

namespace Transcoder

variable {t : Transcoder} {lines : List Bytes} {lost : Option Disconnect}

theorem delivery_cons {line : Bytes} {step : Step Transcoder Bytes} (h : t.onLine line = .ok step) :
    t.delivery (line :: lines) lost = (step.state.delivery lines lost).after step.events := by
  rw [delivery, h]

/-- Lines that pass leave what comes at the end. -/
theorem delivery_of_feed {fed : Step Transcoder Bytes} (h : t.feed lines = .ok fed)
    (lost : Option Disconnect) :
    t.delivery lines lost = (fed.state.delivery [] lost).after fed.events := by
  induction lines generalizing t fed with
  | nil =>
    cases h
    rfl
  | cons line lines ih =>
    obtain ⟨first, hfirst, rest, hrest, rfl⟩ := Step.feed_cons_iff.mp h
    rw [delivery_cons hfirst, ih hrest]
    simp only [Delivery.after, Step.events_andThen, Step.state_andThen, List.append_assoc]

/-- The first line that fails ends the stream: what the lines before it brought was delivered, and
    the error is that of the line. -/
theorem exists_of_feed_error {e : RelayError} (h : t.feed lines = .error e)
    (lost : Option Disconnect) :
    ∃ before line later fed, lines = before ++ line :: later ∧ t.feed before = .ok fed ∧
      fed.state.onLine line = .error e ∧
      t.delivery lines lost = { events := fed.events, error := some e } := by
  induction lines generalizing t with
  | nil => cases h
  | cons line lines ih =>
    cases hfirst : t.onLine line with
    | error e' =>
      have he : e' = e := by
        rw [feed, Step.feed, hfirst] at h
        exact Except.error.inj h
      refine ⟨[], line, lines, { state := t }, rfl, rfl, he ▸ hfirst, ?_⟩
      rw [delivery, hfirst, he]
    | ok first =>
      have hrest : first.state.feed lines = .error e := by
        obtain h | ⟨step, hstep, h⟩ := bind_eq_error_iff.mp h
        · rw [hfirst] at h
          cases h
        · obtain rfl := Except.ok.inj (hfirst.symm.trans hstep)
          obtain h | ⟨rest, -, h⟩ := bind_eq_error_iff.mp h
          · exact h
          · cases h
      obtain ⟨before, bad, later, fed, rfl, hfed, hbad, hdelivery⟩ := ih hrest
      refine ⟨line :: before, bad, later, first.andThen fun _ => fed, rfl,
        Step.feed_cons_iff.mpr ⟨first, hfirst, fed, hfed, rfl⟩, hbad, ?_⟩
      rw [delivery_cons hfirst, hdelivery]
      rfl

end Transcoder

end ChatRelay
