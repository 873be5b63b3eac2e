import ChatRelay.Proofs.Delivery

/-!
# Reading a source line by line

What comes of calling a line reader until it says that there is nothing more. The source may hand
out its bytes in pieces of any sizes (`Delivers`); as long as no line is over the limit, the calls
bring the lines of these bytes, and then the end: `LineReader.reads_of_delivers`.

* `LineReader.Before` -- the INVARIANT between calls: the reader has no failure to report, and what
  it holds and what the source will deliver are the bytes still to be read;
* `LineReader.brings_of_delivers` -- one call takes a line off these bytes, or their tail;
* `LineReader.Reads` -- the calls up to the end, which bring the same lines every time
  (`LineReader.Reads.unique`).
-/

namespace ChatRelay

/-! ## 1. Sources -/

section

variable {σ : Type} [ByteSource σ]

/-- **A source that delivers these bytes and then ends**, in pieces of any sizes. -/
inductive Delivers : σ → Bytes → Prop where
  | ended {source after : σ} (read : ByteSource.read source = (.bytes [], after)) :
      Delivers source []
  | piece {source after : σ} {b : UInt8} {bs rest : Bytes}
      (read : ByteSource.read source = (.bytes (b :: bs), after)) (later : Delivers after rest) :
      Delivers source (b :: bs ++ rest)

end

/-- An open body that does not fail delivers what is still to come of it. -/
theorem Body.delivers {b : Body} (hopen : b.closed = false) (hwhole : b.failure = none) :
    Delivers b b.rest := by
  obtain ⟨hrest, hread⟩ | ⟨x, xs, rest, hrest, hread⟩ := Body.read_cases hopen
  · rw [Body.lastFailure, hwhole] at hread
    rw [hrest]
    exact .ended hread
  · have hlt : rest.length < b.rest.length := by
      rw [hrest, List.length_append, List.length_cons]
      omega
    have hlater : Delivers { b with rest } rest := Body.delivers hopen hwhole
    rw [hrest]
    exact .piece hread hlater
termination_by b.rest.length

/-- A body that is known in advance is delivered as a whole, whatever the size of its pieces. -/
theorem Body.delivers_whole (rest : Bytes) (chunkSize : Nat) :
    Delivers ({ rest, chunkSize } : Body) rest :=
  Body.delivers rfl rfl

namespace LineReader

variable {σ : Type} [ByteSource σ] {r : LineReader} {source : σ} {data rest : Bytes}

/-! ## 2. One call -/

/-- **The invariant between calls**: what the reader holds and what the source will deliver make up
    the bytes still to be read. -/
structure Before (r : LineReader) (source : σ) (data : Bytes) : Prop where
  ready : r.Ready
  no_failure : r.failure = none
  not_ended : r.ended = false
  data_eq : ∃ rest, Delivers source rest ∧ r.pending ++ rest = data

/-- A reader that has come to the end of its source and has nothing left. -/
structure Exhausted (r : LineReader) : Prop where
  ready : r.Ready
  no_failure : r.failure = none
  ended : r.ended = true
  pending_eq : r.pending = []

/-- **What a call brings**: the first line, up to its line feed; or, when there is no line feed any
    more, the tail, if there is one. -/
inductive Brings (r : LineReader) (source : σ) (data : Bytes) : Prop where
  | line {segment later : Bytes} {next : LineReader} {after : σ} (segment_ends : 0x0A ∉ segment)
      (data_eq : data = segment ++ 0x0A :: later)
      (call : r.nextLine source = (.ok (some (Bytes.withoutReturn segment)), next, after))
      (before : next.Before after later) (limit_eq : next.limit = r.limit)
  | tail {next : LineReader} {after : σ} (no_newline : 0x0A ∉ data)
      (call : r.nextLine source =
        (.ok (if data = [] then none else some (Bytes.withoutReturn data)), next, after))
      (exhausted : next.Exhausted)

theorem nextLine_of_line {next : LineReader} {content : Bytes}
    (hscan : r.scan = .line content next) :
    r.nextLine source = (.ok (some content), next, source) := by
  rw [nextLine]
  split
  · rename_i heq
    rw [hscan] at heq
    cases heq
    rfl
  · rename_i heq
    rw [hscan] at heq
    cases heq
  · rename_i heq
    rw [hscan] at heq
    cases heq

/-- A call that finds nothing in the buffer, by what the source says then. -/
theorem nextLine_of_hungry (source : σ) {next : LineReader} (hscan : r.scan = .hungry next) :
    r.nextLine source =
      if next.ended then (next.finish.1, next.finish.2, source)
      else
        match ByteSource.read source with
        | (.bytes (x :: xs), source) => (next.fill (.bytes (x :: xs))).nextLine source
        | (outcome, source) =>
          ((next.fill outcome).finish.1, (next.fill outcome).finish.2, source) := by
  rw [nextLine]
  split
  · rename_i heq
    rw [hscan] at heq
    cases heq
  · rename_i heq
    rw [hscan] at heq
    cases heq
  · rename_i heq
    rw [hscan] at heq
    cases heq
    rfl

theorem ended_of_scan_line {next : LineReader} {content : Bytes}
    (hscan : r.scan = .line content next) : next.ended = r.ended := by
  unfold scan at hscan
  split at hscan
  · cases hscan
    rfl
  · dsimp only at hscan
    split at hscan <;> cases hscan

theorem ended_of_scan_hungry {next : LineReader} (hscan : r.scan = .hungry next) :
    next.ended = r.ended := by
  unfold scan at hscan
  split at hscan
  · cases hscan
  · dsimp only at hscan
    split at hscan
    · cases hscan
    · cases hscan
      rfl

/-- A line in the buffer is brought without a read, whatever the source will deliver. -/
theorem brings_of_scan_line {next : LineReader} {content : Bytes} (hr : r.Ready)
    (hf : r.failure = none) (hopen : r.ended = false) (hd : Delivers source rest)
    (hscan : r.scan = .line content next) : Brings r source (r.pending ++ rest) := by
  obtain ⟨hready, hlimit, hfail, segment, hno, hpend, rfl⟩ := scan_line hr hscan
  have hdata : r.pending ++ rest = segment ++ 0x0A :: (next.pending ++ rest) := by
    rw [hpend, List.append_assoc, List.cons_append]
  have hbefore : next.Before source (next.pending ++ rest) :=
    ⟨hready, hfail.trans hf, (ended_of_scan_line hscan).trans hopen, rest, hd, rfl⟩
  exact .line hno hdata (nextLine_of_line hscan) hbefore hlimit

theorem ready_reset (r : LineReader) : r.reset.Ready where
  start_le := Nat.le_refl 0
  scanFrom_le := Nat.le_refl 0
  scanned := List.not_mem_nil

/-- The reader after its last read. -/
theorem exhausted_finish_fill (hr : r.Ready) (hf : r.failure = none) :
    (r.fill (.bytes [])).finish.2.Exhausted := by
  have hscanned := hr.scanFrom_le
  simp only [fill, finish, hf]
  split
  · exact ⟨ready_reset _, rfl, rfl, rfl⟩
  · rename_i hge
    have hnil : r.buffer.drop r.start = [] := by
      have hlength := Nat.eq_zero_of_le_zero (Nat.le_of_not_lt hge)
      exact List.eq_nil_of_length_eq_zero hlength
    refine ⟨⟨Nat.zero_le _, ?_, ?_⟩, rfl, rfl, hnil⟩
    · show r.scanFrom - r.start ≤ (r.buffer.drop r.start).length
      rw [List.length_drop]
      omega
    · show 0x0A ∉ (r.buffer.drop r.start).take _
      rw [hnil, List.take_nil]
      exact List.not_mem_nil

/-- **A call brings the first line** of the bytes still to be read, or their tail. -/
theorem brings_of_delivers (hd : Delivers source rest) (hr : r.Ready) (hf : r.failure = none)
    (hopen : r.ended = false) (hfit : Bytes.SegmentsFit r.limit (r.pending ++ rest)) :
    Brings r source (r.pending ++ rest) := by
  induction hd generalizing r with
  | @ended source after read =>
    cases hscan : r.scan with
    | line content next => exact brings_of_scan_line hr hf hopen (.ended read) hscan
    | overLimit next =>
      obtain ⟨hno, hlt⟩ := scan_overLimit hr hscan
      exact absurd (hfit.length_le hno) (by omega)
    | hungry next =>
      obtain ⟨hready, hlimit, hfail, hpend, hno, -⟩ := scan_hungry hr hscan
      have hcall := nextLine_of_hungry source hscan
      rw [ended_of_scan_hungry hscan, hopen, if_neg (by decide), read] at hcall
      have htail : r.nextLine source =
          (.ok (if r.pending = [] then none else some (Bytes.withoutReturn r.pending)),
            (next.fill (.bytes [])).finish.2, after) := by
        rw [hcall]
        show ((next.fill (.bytes [])).finish.1, _, _) = _
        rw [finish_fill_end (hfail.trans hf), hpend]
        split <;> rfl
      rw [List.append_nil]
      exact .tail hno htail (exhausted_finish_fill hready (hfail.trans hf))
  | @piece source after b bs rest read later ih =>
    cases hscan : r.scan with
    | line content next => exact brings_of_scan_line hr hf hopen (.piece read later) hscan
    | overLimit next =>
      obtain ⟨hno, hlt⟩ := scan_overLimit hr hscan
      exact absurd (hfit.length_le hno) (by omega)
    | hungry next =>
      obtain ⟨hready, hlimit, hfail, hpend, -, -⟩ := scan_hungry hr hscan
      have hcall := nextLine_of_hungry source hscan
      rw [ended_of_scan_hungry hscan, hopen, if_neg (by decide), read] at hcall
      have hall : (next.fill (.bytes (b :: bs))).pending ++ rest =
          r.pending ++ (b :: bs ++ rest) := by
        rw [pending_fill, hpend, List.append_assoc]
      have hbrings := @ih (next.fill (.bytes (b :: bs))) (hready.fill b bs) (hfail.trans hf)
        ((ended_of_scan_hungry hscan).trans hopen)
        (hall.symm ▸ (show (next.fill (.bytes (b :: bs))).limit = _ from hlimit) ▸ hfit)
      rw [hall] at hbrings
      cases hbrings with
      | line segment_ends data_eq call before limit_eq =>
        exact .line segment_ends data_eq (hcall.trans call) before (limit_eq.trans hlimit)
      | tail no_newline call exhausted =>
        exact .tail no_newline (hcall.trans call) exhausted

/-! ## 3. Calls up to the end -/

/-- **The lines that calls bring**, one after another, until a call says that there is nothing
    more. -/
inductive Reads : LineReader → σ → List Bytes → Prop where
  | done {r next : LineReader} {source after : σ}
      (call : r.nextLine source = (.ok none, next, after)) : Reads r source []
  | line {r next : LineReader} {source after : σ} {content : Bytes} {lines : List Bytes}
      (call : r.nextLine source = (.ok (some content), next, after))
      (later : Reads next after lines) : Reads r source (content :: lines)

/-- The calls bring the same lines every time. -/
theorem Reads.unique {lines lines' : List Bytes} (h : Reads r source lines)
    (h' : Reads r source lines') : lines = lines' := by
  induction h generalizing lines' with
  | done call =>
    cases h' with
    | done => rfl
    | line call' =>
      rw [call] at call'
      cases call'
  | line call _ ih =>
    cases h' with
    | done call' =>
      rw [call] at call'
      cases call'
    | line call' later' =>
      rw [call] at call'
      cases call'
      rw [ih later']

/-- A reader with nothing left says so, and still has nothing left. -/
theorem Exhausted.call (h : r.Exhausted) (source : σ) :
    ∃ next, r.nextLine source = (.ok none, next, source) ∧ next.Exhausted := by
  cases hscan : r.scan with
  | line content next =>
    obtain ⟨-, -, -, segment, -, hpend, -⟩ := scan_line h.ready hscan
    rw [h.pending_eq] at hpend
    cases segment <;> cases hpend
  | overLimit next =>
    have hlt := (scan_overLimit h.ready hscan).2
    rw [h.pending_eq] at hlt
    cases hlt
  | hungry next =>
    obtain ⟨hready, -, hfail, hpend, -, -⟩ := scan_hungry h.ready hscan
    have hended : next.ended = true := (ended_of_scan_hungry hscan).trans h.ended
    have hcall := nextLine_of_hungry source hscan
    rw [if_pos hended] at hcall
    have hfinish : next.finish = (.ok none, next) := by
      have hlength := congrArg List.length (hpend.trans h.pending_eq)
      rw [pending, List.length_drop, List.length_nil] at hlength
      rw [finish, hfail, h.no_failure]
      exact if_neg (by omega)
    rw [hfinish] at hcall
    exact ⟨next, hcall, hready, hfail.trans h.no_failure, hended, hpend.trans h.pending_eq⟩

theorem Exhausted.reads (h : r.Exhausted) (source : σ) : Reads r source [] := by
  obtain ⟨next, hcall, -⟩ := h.call source
  exact .done hcall

/-- **The calls bring the lines of the bytes still to be read**, by induction on their number. -/
theorem Before.reads {r : LineReader} {source : σ} {data : Bytes} (h : r.Before source data)
    (hfit : Bytes.SegmentsFit r.limit data) : Reads r source (Bytes.bodyLines data true) := by
  obtain ⟨rest, hd, hdata⟩ := h.data_eq
  have hbrings := brings_of_delivers hd h.ready h.no_failure h.not_ended (hdata.symm ▸ hfit)
  rw [hdata] at hbrings
  cases hbrings with
  | @line segment later next after segment_ends data_eq call before limit_eq =>
    have hlt : later.length < data.length := by
      rw [data_eq, List.length_append, List.length_cons]
      omega
    have hlater : Bytes.SegmentsFit next.limit later := by
      rw [limit_eq]
      rw [data_eq] at hfit
      exact hfit.tail segment_ends
    rw [data_eq, Bytes.bodyLines_append_newline segment_ends]
    exact .line call (before.reads hlater)
  | @tail next after no_newline call exhausted =>
    rw [Bytes.bodyLines_of_notMem no_newline]
    by_cases hnil : data = []
    · rw [if_pos hnil] at call
      rw [if_neg fun h => h.2 hnil]
      exact .done call
    · rw [if_neg hnil] at call
      rw [if_pos ⟨rfl, hnil⟩]
      exact .line call (exhausted.reads after)
termination_by data.length

/-- **What is read of a source is its lines**, in whatever pieces it hands out its bytes, as long as
    none of them is over the limit. -/
theorem reads_of_delivers {limit : Nat} (hd : Delivers source data)
    (hfit : Bytes.SegmentsFit limit data) :
    Reads { limit } source (Bytes.bodyLines data true) :=
  Before.reads ⟨ready_empty limit, rfl, rfl, data, hd, rfl⟩ hfit

end LineReader

end ChatRelay
