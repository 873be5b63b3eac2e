import ChatRelay.Proofs.LineLimits

/-!
# What a line reader holds

A line reader goes from state to state in acts: a look into its buffer, a read, and what it does
when there is nothing more. For every source, also one that goes on after its end or a failure:

* `LineReader.Reached` -- the states that it comes to, within calls and between them, with the
  number of reads that were made;
* `LineReader.Sound` -- the INVARIANT of these states: the offsets are in order, what was looked
  through of the current line has no line feed, and the buffer holds no more than the limit and one
  read together; and no read has failed but the one that ended the reading. An act keeps it
  (`Sound.act`), so every reached state has it (`Reached.sound`);
* `LineReader.exists_stops` -- a call goes through acts, to a state in which it stops;
* `LineReader.calls_stay_within_bounds` -- the invariant for all calls, the bound on lines that
  comes from it, and what the calls behind an error bring: a refusal is for good, a failure of the
  source is raised once, also when it looks like a refusal (`failure_like_refusal_raised_once`).
-/

namespace ChatRelay

section

variable {σ : Type} [ByteSource σ]

/-- The source after this many reads. -/
def sourceAfter (source : σ) : Nat → σ
  | 0 => source
  | n + 1 => (ByteSource.read (sourceAfter source n)).2

/-- What the read with this number brings, counted from 0. -/
def readAt (source : σ) (n : Nat) : ReadOutcome :=
  (ByteSource.read (sourceAfter source n)).1

/-- **No read brings more bytes than this.** -/
def ReadsAtMost (most : Nat) (source : σ) : Prop :=
  ∀ n b, readAt source n = .bytes b → b.length ≤ most

end

namespace Body

theorem length_read_le {b : Body} {bytes : Bytes} (h : b.read.1 = .bytes bytes) :
    bytes.length ≤ readLimit := by
  have hpiece : b.pieceSize ≤ readLimit := by
    unfold pieceSize
    split
    · exact Nat.le_refl _
    · exact Nat.min_le_left _ _
  unfold read at h
  split at h
  · cases h
  · split at h
    · split at h <;> cases h
      exact Nat.zero_le _
    · cases h
      rw [List.length_take]
      exact (Nat.min_le_left _ _).trans hpiece

/-- Every body, whether it is open or not, whether it fails or not. -/
theorem readsAtMost (b : Body) : ReadsAtMost readLimit b :=
  fun _ _ h => length_read_le h

end Body

namespace LineReader

/-! ## 1. Acts -/

/-- The reader after a look into the buffer, whatever that finds. -/
def Scan.reader : Scan → LineReader
  | .line _ next => next
  | .overLimit next => next
  | .hungry next => next

section

variable {σ : Type} [ByteSource σ]

/-- **One act of a call**: a look into the buffer, a read after a look that has found no line, or
    what is done when the source has nothing more. The number is that of its reads. -/
inductive Act : LineReader → σ → Nat → LineReader → σ → Prop where
  | look (r : LineReader) (source : σ) : Act r source 0 r.scan.reader source
  | read {r next : LineReader} {source after : σ} {outcome : ReadOutcome}
      (nothing : r.scan = .hungry next) (going_on : next.ended = false)
      (brings : ByteSource.read source = (outcome, after)) :
      Act r source 1 (next.fill outcome) after
  | finish {r : LineReader} (source : σ) (ended : r.ended = true) :
      Act r source 0 r.finish.2 source

/-- **The states that a reader comes to** by this many reads, with the source as it is then. -/
inductive Reached (r : LineReader) (source : σ) : Nat → LineReader → σ → Prop where
  | start : Reached r source 0 r source
  | act {n m : Nat} {r' next : LineReader} {source' after : σ}
      (before : Reached r source n r' source') (act : Act r' source' m next after) :
      Reached r source (n + m) next after

/-- **How a call stops**: with a line, at a line that is too long, or with what is left when the
    source has nothing more. -/
inductive Stops (r : LineReader) (source : σ) : Outcome × LineReader × σ → Prop where
  | line {content : Bytes} {next : LineReader} (found : r.scan = .line content next) :
      Stops r source (.ok (some content), next, source)
  | refused {next : LineReader} (too_long : r.scan = .overLimit next) :
      Stops r source (.error tooLong, next, source)
  | finished (ended : r.ended = true) : Stops r source (r.finish.1, r.finish.2, source)

variable {r r' r'' next : LineReader} {source source' source'' after : σ} {n m : Nat}

theorem Reached.trans (h : Reached r source n r' source')
    (h' : Reached r' source' m r'' source'') : Reached r source (n + m) r'' source'' := by
  induction h' with
  | start => exact h
  | act _ act ih =>
    rw [← Nat.add_assoc]
    exact ih.act act

theorem Act.reached (h : Act r source n next after) : Reached r source n next after := by
  have hreached : Reached r source (0 + n) next after := .act .start h
  rwa [Nat.zero_add] at hreached

/-- A look that has found no line is an act. -/
theorem Act.look_hungry (source : σ) (h : r.scan = .hungry next) : Act r source 0 next source := by
  have hlook := Act.look r source
  rwa [h] at hlook

/-- A call stops with one more act. -/
theorem Stops.act {result : Outcome × LineReader × σ} (h : Stops r source result) :
    Act r source 0 result.2.1 result.2.2 := by
  cases h with
  | line found =>
    have hlook := Act.look r source
    rwa [found] at hlook
  | refused too_long =>
    have hlook := Act.look r source
    rwa [too_long] at hlook
  | finished ended => exact .finish source ended

/-- A read that brings no bytes is the last one. -/
theorem ended_fill {outcome : ReadOutcome} (r : LineReader)
    (h : ∀ x xs, outcome = .bytes (x :: xs) → False) : (r.fill outcome).ended = true := by
  cases outcome with
  | failed d => rfl
  | bytes b =>
    cases b with
    | nil => rfl
    | cons x xs => exact (h x xs rfl).elim

/-- **A call goes through acts to a state in which it stops**: by induction on how much the current
    line may still grow. -/
theorem exists_stops (r : LineReader) (source : σ) :
    ∃ n r' source', Reached r source n r' source' ∧ Stops r' source' (r.nextLine source) := by
  fun_induction nextLine r source with
  | case1 r source content next found => exact ⟨0, r, source, .start, .line found⟩
  | case2 r source next too_long => exact ⟨0, r, source, .start, .refused too_long⟩
  | case3 r source next nothing ended outcome final finished =>
    have hstop : Stops next source (next.finish.1, next.finish.2, source) := .finished ended
    rw [finished] at hstop
    exact ⟨0, next, source, (Act.look_hungry source nothing).reached, hstop⟩
  | case4 r source next nothing going_on x xs after brings ih =>
    obtain ⟨n, r', source', hreached, hstop⟩ := ih
    have hread : Act r source 1 (next.fill (.bytes (x :: xs))) after :=
      .read nothing (Bool.eq_false_iff.mpr going_on) brings
    exact ⟨1 + n, r', source', hread.reached.trans hreached, hstop⟩
  | case5 r source next nothing going_on outcome after last brings result final finished =>
    have hread : Act r source 1 (next.fill outcome) after :=
      .read nothing (Bool.eq_false_iff.mpr going_on) brings
    have hstop : Stops (next.fill outcome) after _ := .finished (ended_fill next last)
    rw [finished] at hstop
    exact ⟨1, next.fill outcome, after, hread.reached, hstop⟩

/-! ## 2. Readers within bounds -/

/-- The invariant of the offsets, and the bound of the buffer. -/
structure WithinBounds (limit most : Nat) (r : LineReader) : Prop where
  ready : r.Ready
  limit_eq : r.limit = limit
  length_le : r.buffer.length ≤ limit + most

variable {limit most : Nat}

theorem scan_reader_eq (r : LineReader) : r.scan.reader.buffer = r.buffer ∧
    r.scan.reader.limit = r.limit ∧ r.scan.reader.ended = r.ended ∧
    r.scan.reader.failure = r.failure := by
  unfold scan
  split
  · exact ⟨rfl, rfl, rfl, rfl⟩
  · dsimp only
    split <;> exact ⟨rfl, rfl, rfl, rfl⟩

theorem Ready.scan_reader (hr : r.Ready) : r.scan.reader.Ready := by
  cases hscan : r.scan with
  | line content next => exact (scan_line hr hscan).1
  | overLimit next => exact (scan_of_overLimit hr hscan).1
  | hungry next => exact (scan_hungry hr hscan).1

/-- **A look** changes the offsets only. -/
theorem WithinBounds.look (h : WithinBounds limit most r) :
    WithinBounds limit most r.scan.reader := by
  obtain ⟨hbuffer, hlimit, -⟩ := scan_reader_eq r
  exact ⟨h.ready.scan_reader, hlimit.trans h.limit_eq, by rw [hbuffer]; exact h.length_le⟩

/-- The reader that has forgotten what was given out. -/
theorem Ready.forget (hr : r.Ready) (failure : Option Disconnect) :
    Ready { r with
      buffer := r.pending, scanFrom := r.scanFrom - r.start, start := 0, ended := true,
      failure } where
  start_le := Nat.zero_le _
  scanFrom_le := by
    have hle := hr.scanFrom_le
    show r.scanFrom - r.start ≤ (r.buffer.drop r.start).length
    rw [List.length_drop]
    omega
  scanned := hr.scanned

/-- **A read** comes behind what is pending, and that is within the limit. -/
theorem WithinBounds.read (h : WithinBounds limit most r) (nothing : r.scan = .hungry next)
    {outcome : ReadOutcome} (hmost : ∀ b, outcome = .bytes b → b.length ≤ most) :
    WithinBounds limit most (next.fill outcome) := by
  obtain ⟨hready, hlimit, -, hpending, -, hle⟩ := scan_hungry h.ready nothing
  rw [← hpending, h.limit_eq] at hle
  have hkept : (next.fill outcome).limit = limit := by
    refine Eq.trans ?_ (hlimit.trans h.limit_eq)
    unfold fill
    split <;> rfl
  cases outcome with
  | failed d => exact ⟨hready.forget (some d), hkept, Nat.le_add_right_of_le hle⟩
  | bytes b =>
    cases b with
    | nil => exact ⟨hready.forget next.failure, hkept, Nat.le_add_right_of_le hle⟩
    | cons x xs =>
      refine ⟨hready.fill x xs, hkept, ?_⟩
      have hbytes := hmost _ rfl
      show (next.pending ++ x :: xs).length ≤ limit + most
      rw [List.length_append]
      omega

/-- What is done at the end: the failure, once; else what is left as a line; else nothing. -/
theorem finish_cases (r : LineReader) :
    (∃ d, r.failure = some d ∧ r.finish = (.error d, { r.reset with failure := none })) ∨
      (∃ line, r.finish = (.ok (some line), r.reset) ∧ line.length ≤ r.buffer.length) ∨
      r.finish = (.ok none, r) := by
  unfold finish
  split
  · rename_i d hfailure
    exact .inl ⟨d, hfailure, rfl⟩
  · split
    · refine .inr (.inl ⟨_, rfl, ?_⟩)
      rw [chop_eq]
      refine (Bytes.length_withoutReturn_le _).trans ?_
      rw [List.length_drop]
      exact Nat.sub_le _ _
    · exact .inr (.inr rfl)

theorem WithinBounds.finish (h : WithinBounds limit most r) :
    WithinBounds limit most r.finish.2 := by
  obtain ⟨d, -, hfinish⟩ | ⟨line, hfinish, -⟩ | hfinish := finish_cases r
  · rw [hfinish]
    exact ⟨ready_reset { r with failure := none }, h.limit_eq, Nat.zero_le _⟩
  · rw [hfinish]
    exact ⟨ready_reset r, h.limit_eq, Nat.zero_le _⟩
  · rw [hfinish]
    exact h

/-! ## 3. Reached states -/

/-- **The invariant of the states that a reader comes to** by `n` reads: it is within its bounds;
    none of the reads has failed while it goes on; when there is nothing more to read, what is
    pending is not over the limit; and a failure that it has not reported yet is that of the last
    read. -/
structure Sound (limit most : Nat) (first : σ) (n : Nat) (r : LineReader) (source : σ) : Prop where
  bounds : WithinBounds limit most r
  source_eq : source = sourceAfter first n
  none_failed : r.ended = false → ∀ m < n, ∀ d, readAt first m ≠ .failed d
  pending_le : r.ended = true → r.pending.length ≤ limit
  last_failed : ∀ d, r.failure = some d →
    r.ended = true ∧ ∃ m, n = m + 1 ∧ readAt first m = .failed d

variable {first : σ}

/-- What is pending does not grow by a look. -/
theorem Ready.pending_scan_reader_le (hr : r.Ready) :
    r.scan.reader.pending.length ≤ r.pending.length := by
  have hstart : r.start ≤ r.scan.reader.start := by
    unfold scan
    split
    · exact Nat.le_succ_of_le (Nat.le_add_right_of_le hr.start_le)
    · dsimp only
      split <;> exact Nat.le_refl _
  rw [pending, pending, List.length_drop, List.length_drop, (scan_reader_eq r).1]
  exact Nat.sub_le_sub_left hstart _

theorem Sound.look (h : Sound limit most first n r source) :
    Sound limit most first n r.scan.reader source := by
  obtain ⟨-, -, hended, hfailure⟩ := scan_reader_eq r
  refine ⟨h.bounds.look, h.source_eq, fun hmore => h.none_failed (hended.symm.trans hmore),
    fun hend => ?_, fun d hd => ?_⟩
  · exact h.bounds.ready.pending_scan_reader_le.trans (h.pending_le (hended.symm.trans hend))
  · rw [hended]
    exact h.last_failed d (hfailure.symm.trans hd)

/-- The reader that has looked still goes on, so that no read before this one has failed. -/
theorem Sound.read (h : Sound limit most first n r source) (hreads : ReadsAtMost most first)
    (nothing : r.scan = .hungry next) (going_on : next.ended = false) {outcome : ReadOutcome}
    (brings : ByteSource.read source = (outcome, after)) :
    Sound limit most first (n + 1) (next.fill outcome) after := by
  obtain ⟨hbounds, rfl, hnone, -, hlast⟩ := h
  have houtcome : readAt first n = outcome := congrArg Prod.fst brings
  have hafter : sourceAfter first (n + 1) = after := congrArg Prod.snd brings
  obtain ⟨-, -, hended, hfailure⟩ := scan_reader_eq r
  rw [nothing] at hended hfailure
  have hearlier := hnone (hended.symm.trans going_on)
  have hno (d : Disconnect) : next.failure ≠ some d := by
    intro hd
    have hend := (hlast d (hfailure.symm.trans hd)).1
    rw [← hended] at hend
    exact Bool.false_ne_true (going_on.symm.trans hend)
  obtain ⟨-, -, -, hpending, -, hle⟩ := scan_hungry hbounds.ready nothing
  rw [← hpending, hbounds.limit_eq] at hle
  have hnext := hbounds.read nothing fun b hb => hreads n b (houtcome.trans hb)
  cases outcome with
  | failed d =>
    refine ⟨hnext, hafter.symm, nofun, fun _ => hle, fun d' hd' => ⟨rfl, n, rfl, ?_⟩⟩
    obtain rfl : d = d' := Option.some.inj hd'
    exact houtcome
  | bytes b =>
    cases b with
    | nil => exact ⟨hnext, hafter.symm, nofun, fun _ => hle, fun d hd => absurd hd (hno d)⟩
    | cons x xs =>
      refine ⟨hnext, hafter.symm, fun _ m hm d hd => ?_, fun hend => ?_,
        fun d hd => absurd hd (hno d)⟩
      · rcases Nat.lt_succ_iff_lt_or_eq.mp hm with hlt | rfl
        · exact hearlier m hlt d hd
        · rw [houtcome] at hd
          cases hd
      · exact absurd (going_on.symm.trans hend) Bool.false_ne_true

theorem Sound.finish (h : Sound limit most first n r source) (ended : r.ended = true) :
    Sound limit most first n r.finish.2 source := by
  have hgoing : r.ended ≠ false := Bool.ne_false_iff.mpr ended
  have hbounds := h.bounds.finish
  obtain ⟨d, -, hfinish⟩ | ⟨line, hfinish, -⟩ | hfinish := finish_cases r
  · rw [hfinish] at hbounds ⊢
    exact ⟨hbounds, h.source_eq, fun hmore => absurd hmore hgoing, fun _ => Nat.zero_le _, nofun⟩
  · rw [hfinish] at hbounds ⊢
    exact ⟨hbounds, h.source_eq, fun hmore => absurd hmore hgoing, fun _ => Nat.zero_le _,
      h.last_failed⟩
  · rw [hfinish]
    exact h

/-- **An act keeps the invariant.** -/
theorem Sound.act (h : Sound limit most first n r source) (hreads : ReadsAtMost most first)
    (hact : Act r source m next after) : Sound limit most first (n + m) next after := by
  cases hact with
  | look => exact h.look
  | read nothing going_on brings => exact h.read hreads nothing going_on brings
  | finish source ended => exact h.finish ended

/-- **Every reached state has the invariant**, by induction on the acts. -/
theorem Reached.sound (h : Reached { limit } first n r source) (hreads : ReadsAtMost most first) :
    Sound limit most first n r source := by
  induction h with
  | start =>
    exact ⟨⟨ready_empty limit, rfl, Nat.zero_le _⟩, rfl,
      fun _ m hm => absurd hm (Nat.not_lt_zero m), nofun, nofun⟩
  | act _ act ih => exact ih.act hreads act

omit [ByteSource σ] in
/-- A line that is brought was in the buffer. -/
theorem Stops.length_le {line : Bytes} {rest : LineReader × σ} (hbounds : WithinBounds limit most r)
    (h : Stops r source (.ok (some line), rest)) : line.length ≤ limit + most := by
  refine Nat.le_trans ?_ hbounds.length_le
  generalize hresult : ((.ok (some line), rest) : Outcome × LineReader × σ) = result at h
  cases h with
  | @line content next found =>
    cases hresult
    obtain ⟨-, -, -, segment, -, hpending, rfl⟩ := scan_line hbounds.ready found
    have hlength := congrArg List.length hpending
    rw [pending, List.length_drop, List.length_append] at hlength
    have hle := Bytes.length_withoutReturn_le segment
    omega
  | refused => cases hresult
  | finished =>
    have hoffered := congrArg Prod.fst hresult
    obtain ⟨d, -, hfinish⟩ | ⟨line', hfinish, hle⟩ | hfinish := finish_cases r
    · rw [hfinish] at hoffered
      cases hoffered
    · rw [hfinish] at hoffered
      cases hoffered
      exact hle
    · rw [hfinish] at hoffered
      cases hoffered

/-- **An error that stops a call** is a refusal, which comes again for good, or that of the last
    read, behind which there is nothing more. -/
theorem Sound.error_cases (h : Sound limit most first n r source) {d : Disconnect}
    {result : Outcome × LineReader × σ} (hstop : Stops r source result)
    (herror : result.1 = .error d) :
    (d = tooLong ∧ (∀ m < n, ∀ d', readAt first m ≠ .failed d') ∧
        ∀ j, result.2.1.outcomeAt result.2.2 j = .error tooLong) ∨
      ((∃ m, n = m + 1 ∧ readAt first m = .failed d) ∧
        ∀ j, result.2.1.outcomeAt result.2.2 j = .ok none) := by
  cases hstop with
  | line => cases herror
  | refused too_long =>
    obtain ⟨hready, hagain⟩ := scan_of_overLimit h.bounds.ready too_long
    have hlt := (scan_overLimit h.bounds.ready too_long).2
    rw [h.bounds.limit_eq] at hlt
    have hgoing : r.ended = false :=
      Bool.eq_false_iff.mpr fun ended => Nat.not_le_of_gt hlt (h.pending_le ended)
    cases herror
    exact .inl ⟨rfl, h.none_failed hgoing, outcomeAt_of_overLimit hready hagain source⟩
  | finished ended =>
    obtain ⟨d', hfailure, hfinish⟩ | ⟨line, hfinish, -⟩ | hfinish := finish_cases r
    · rw [hfinish] at herror ⊢
      cases herror
      have hexhausted : Exhausted { r.reset with failure := none } :=
        ⟨ready_reset { r with failure := none }, rfl, ended, rfl⟩
      exact .inr ⟨(h.last_failed d hfailure).2, hexhausted.outcomeAt source⟩
    · rw [hfinish] at herror
      cases herror
    · rw [hfinish] at herror
      cases herror

/-! ## 4. Calls -/

/-- The reader and the source after this many calls. -/
def stateAfter (r : LineReader) (source : σ) : Nat → LineReader × σ
  | 0 => (r, source)
  | k + 1 => stateAfter (r.nextLine source).2.1 (r.nextLine source).2.2 k

/-- The calls after some calls. -/
theorem outcomeAt_add (r : LineReader) (source : σ) (k j : Nat) : r.outcomeAt source (k + j) =
    (r.stateAfter source k).1.outcomeAt (r.stateAfter source k).2 j := by
  induction k generalizing r source with
  | zero =>
    rw [Nat.zero_add]
    rfl
  | succ k ih =>
    rw [Nat.succ_add]
    exact ih _ _

/-- What one call brings and leaves. -/
theorem nextLine_stateAfter (r : LineReader) (source : σ) (k : Nat) :
    (r.stateAfter source k).1.nextLine (r.stateAfter source k).2 =
      (r.outcomeAt source k, r.stateAfter source (k + 1)) := by
  induction k generalizing r source with
  | zero => rfl
  | succ k ih => exact ih _ _

/-- **A reader after any calls is reached**, by induction on their number. -/
theorem reached_stateAfter (r : LineReader) (source : σ) (k : Nat) :
    ∃ n, Reached r source n (r.stateAfter source k).1 (r.stateAfter source k).2 := by
  induction k generalizing r source with
  | zero => exact ⟨0, .start⟩
  | succ k ih =>
    obtain ⟨n, r', source', hreached, hstop⟩ := exists_stops r source
    obtain ⟨m, hrest⟩ := ih (r.nextLine source).2.1 (r.nextLine source).2.2
    exact ⟨n + m, (hreached.act hstop.act).trans hrest⟩

/-- Each call stops in a reached state. -/
theorem exists_stops_call (r : LineReader) (source : σ) (k : Nat) : ∃ n r' source',
    Reached r source n r' source' ∧
      Stops r' source' (r.outcomeAt source k, r.stateAfter source (k + 1)) := by
  obtain ⟨m, hbefore⟩ := reached_stateAfter r source k
  obtain ⟨n, r', source', hreached, hstop⟩ :=
    exists_stops (r.stateAfter source k).1 (r.stateAfter source k).2
  rw [nextLine_stateAfter] at hstop
  exact ⟨m + n, r', source', hbefore.trans hreached, hstop⟩

/-- **What a line reader holds, over all calls.** For every limit and every source of which no read
    brings more than `Body.readLimit` bytes: within calls and between them the offsets are in
    order, so that no difference of them is cut off at 0; there is no line feed in what was looked
    through of the current line; and the buffer, and so each line that is brought, has no more
    bytes than the limit and one read together. A call that raises an error has refused a line when
    none of the reads made so far has failed, and then so does every later call; or the last of
    them has failed with this error, and then every later call says that there is nothing more. -/
theorem calls_stay_within_bounds (limit : Nat) (hreads : ReadsAtMost Body.readLimit first) :
    (∀ n r source, Reached { limit } first n r source →
      r.start ≤ r.scanFrom ∧ r.scanFrom ≤ r.buffer.length ∧
        0x0A ∉ (r.buffer.drop r.start).take (r.scanFrom - r.start) ∧
        r.buffer.length ≤ limit + Body.readLimit) ∧
    (∀ k, ∃ n, Reached { limit } first n (stateAfter { limit } first k).1
      (stateAfter { limit } first k).2) ∧
    (∀ k line, outcomeAt { limit } first k = .ok (some line) →
      line.length ≤ limit + Body.readLimit) ∧
    ∀ k d, outcomeAt { limit } first k = .error d →
      ∃ n, Reached { limit } first n (stateAfter { limit } first (k + 1)).1
          (stateAfter { limit } first (k + 1)).2 ∧
        ((d = tooLong ∧ (∀ m < n, ∀ d', readAt first m ≠ .failed d') ∧
            ∀ j, k ≤ j → outcomeAt { limit } first j = .error tooLong) ∨
          ((∃ m, n = m + 1 ∧ readAt first m = .failed d) ∧
            ∀ j, k < j → outcomeAt { limit } first j = .ok none)) := by
  refine ⟨fun n r source hreached => ?_, reached_stateAfter _ first, fun k line hline => ?_,
    fun k d herror => ?_⟩
  · obtain ⟨hready, -, hlength⟩ := (hreached.sound hreads).bounds
    exact ⟨hready.start_le, hready.scanFrom_le, hready.scanned, hlength⟩
  · obtain ⟨n, r, source, hreached, hstop⟩ := exists_stops_call { limit } first k
    rw [hline] at hstop
    exact hstop.length_le (hreached.sound hreads).bounds
  · obtain ⟨n, r, source, hreached, hstop⟩ := exists_stops_call { limit } first k
    refine ⟨n, hreached.act hstop.act, ?_⟩
    have hbehind (j : Nat) (hj : k < j) : outcomeAt { limit } first j =
        (stateAfter { limit } first (k + 1)).1.outcomeAt (stateAfter { limit } first (k + 1)).2
          (j - (k + 1)) := by
      rw [← outcomeAt_add, Nat.add_sub_cancel' hj]
    obtain ⟨rfl, hnone, hagain⟩ | ⟨hlast, hnothing⟩ :=
      (hreached.sound hreads).error_cases hstop herror
    · refine .inl ⟨rfl, hnone, fun j hj => ?_⟩
      rcases Nat.lt_or_eq_of_le hj with hlt | rfl
      · exact (hbehind j hlt).trans (hagain _)
      · exact herror
    · exact .inr ⟨hlast, fun j hj => (hbehind j hj).trans (hnothing _)⟩

/-- A line over the limit that comes in two reads is refused from then on. -/
theorem calls_stay_within_bounds_cut :
    let source : Body := { rest := "0123456789\n", chunkSize := 6 }
    ReadsAtMost Body.readLimit source ∧
    (stateAfter { limit := 4 } source 3).1.buffer.length ≤ 4 + Body.readLimit ∧
    ∀ j, outcomeAt { limit := 4 } source j = .error tooLong := by
  intro source
  have hcut : HandsOut source [("012345" : Bytes), ("6789\n" : Bytes)] none :=
    .piece rfl (.piece rfl (.ended rfl))
  have hrefused : ∀ k < 2, outcomeAt { limit := 4 } source k = .error tooLong := by
    intro k _
    rw [outcomeAt_eq hcut]
    decide +revert
  obtain ⟨hbounds, hreached, -, herrors⟩ := calls_stay_within_bounds 4 source.readsAtMost
  obtain ⟨n, hthird⟩ := hreached 3
  refine ⟨source.readsAtMost, (hbounds n _ _ hthird).2.2.2, fun j => ?_⟩
  obtain ⟨_, -, ⟨-, -, hagain⟩ | ⟨-, hnothing⟩⟩ := herrors 0 tooLong (hrefused 0 (by decide))
  · exact hagain j (Nat.zero_le j)
  · have hsecond := (hnothing 1 (by decide)).symm.trans (hrefused 1 (by decide))
    cases hsecond

/-- **A failure in the words of a refusal** is raised once. -/
theorem failure_like_refusal_raised_once :
    let source : Body := { rest := [], failure := some "token too long" }
    outcomeAt { limit := 4 } source 0 = .error tooLong ∧
    outcomeAt { limit := 4 } source 1 = .ok none := by
  intro source
  have hfails : HandsOut source [] (some tooLong) := .failed rfl
  rw [outcomeAt_eq hfails, outcomeAt_eq hfails]
  decide

end

end LineReader

end ChatRelay
