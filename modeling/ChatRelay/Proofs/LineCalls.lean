import Mathlib.Data.List.Infix
import Mathlib.Data.List.TakeWhile
import ChatRelay.Proofs.Endings

/-!
# The calls of a line reader, one by one

What each call of a line reader brings, for every source that hands out its bytes in reads of any
sizes and then ends or fails, and for every limit.

* `LineReader.answerAt` -- what a call should bring: a line of the body, the failure in place of its
  end, or that there is nothing more;
* `LineReader.Refused` -- a read has ended inside of a line, beyond the limit;
* `LineReader.outcomeAt_eq` -- each call brings its answer until a line is refused, by induction on
  the reads that are left and, between two reads, on the number of the call;
* `LineReader.calls_bring_lines` -- where every line is within the limit, the reads do not matter.
-/

namespace ChatRelay

/-! ## 1. Texts that are read in pieces -/

namespace Bytes

variable {sep : UInt8} {s t u : Bytes}

theorem afterLast_of_notMem (hu : sep ∉ u) : afterLast sep u = u := by
  have hall : ∀ b ∈ u.reverse, (b != sep) = true := by
    intro b hb
    refine bne_iff_ne.mpr fun heq => hu ?_
    exact heq ▸ List.mem_reverse.mp hb
  rw [afterLast, List.takeWhile_eq_self_iff.mpr hall, List.reverse_reverse]

/-- What stands before a separator does not matter to the text after the last one. -/
theorem afterLast_append_sep (s t : Bytes) : afterLast sep (s ++ sep :: t) = afterLast sep t := by
  have hsplit : (s ++ sep :: t).reverse = t.reverse ++ sep :: s.reverse := by
    rw [List.reverse_append, List.reverse_cons, List.append_assoc]
    rfl
  have hnone : (sep :: s.reverse).takeWhile (· != sep) = [] :=
    List.takeWhile_cons_of_neg (by simp)
  rw [afterLast, afterLast, hsplit, List.takeWhile_append]
  split
  · rename_i hlength
    have hall := (List.takeWhile_prefix (· != sep)).eq_of_length hlength
    rw [hnone, List.append_nil, hall]
  · rfl

/-- **Induction along the segments of a text**: the last one has no separator behind it, and every
    other one stands before its first separator. -/
theorem segments_induction (sep : UInt8) {motive : Bytes → Prop}
    (last : ∀ u, sep ∉ u → motive u)
    (ended : ∀ u v, sep ∉ u → motive v → motive (u ++ sep :: v)) (s : Bytes) : motive s := by
  by_cases hs : sep ∈ s
  · obtain ⟨u, v, rfl, hu⟩ := List.eq_append_cons_of_mem hs
    have hlt : v.length < (u ++ sep :: v).length := by
      rw [List.length_append, List.length_cons]
      omega
    exact ended u v hu (segments_induction sep last ended v)
  · exact last s hs
termination_by s.length

theorem count_append_sep (hu : sep ∉ u) (t : Bytes) :
    (u ++ sep :: t).count sep = t.count sep + 1 := by
  rw [List.count_append, List.count_eq_zero_of_not_mem hu, List.count_cons_self, Nat.zero_add]

/-- **A text in two pieces**: the last segment of the first piece goes on in the second one. -/
theorem splitAtByte_append_eq (s t : Bytes) : splitAtByte sep (s ++ t) =
    (splitAtByte sep s).dropLast ++ (splitAtByte sep t).modifyHead (afterLast sep s ++ ·) := by
  induction s using segments_induction sep with
  | last u hu =>
    rw [splitAtByte_append hu, splitAtByte_of_notMem hu, afterLast_of_notMem hu]
    rfl
  | ended u v hu ih =>
    rw [List.append_assoc, List.cons_append, splitAtByte_append_sep hu, splitAtByte_append_sep hu,
      List.dropLast_cons_of_ne_nil (splitAtByte_ne_nil sep v), ih, afterLast_append_sep,
      List.cons_append]

/-- As many segments are ended as there are separators. -/
theorem length_dropLast_splitAtByte (s : Bytes) :
    (splitAtByte sep s).dropLast.length = s.count sep := by
  induction s using segments_induction sep with
  | last u hu =>
    rw [splitAtByte_of_notMem hu, List.count_eq_zero_of_not_mem hu]
    rfl
  | ended u v hu ih =>
    rw [splitAtByte_append_sep hu, List.dropLast_cons_of_ne_nil (splitAtByte_ne_nil sep v),
      List.length_cons, ih, count_append_sep hu]

/-- **The segment in which a beginning of the text ends** starts with what the beginning has of
    it. -/
theorem exists_segment (s t : Bytes) : ∃ later,
    (splitAtByte sep t).head? = some later ∧
      (splitAtByte sep (s ++ t))[s.count sep]? = some (afterLast sep s ++ later) := by
  cases ht : splitAtByte sep t with
  | nil => exact absurd ht (splitAtByte_ne_nil sep t)
  | cons later rest =>
    refine ⟨later, rfl, ?_⟩
    rw [splitAtByte_append_eq, ht, List.getElem?_append_right
      (Nat.le_of_eq (length_dropLast_splitAtByte s)), length_dropLast_splitAtByte, Nat.sub_self]
    rfl

/-- The last segment is the text after the last separator. -/
theorem getElem?_splitAtByte_count (s : Bytes) :
    (splitAtByte sep s)[s.count sep]? = some (afterLast sep s) := by
  obtain ⟨later, hlater, hsegment⟩ := @exists_segment sep s []
  obtain rfl := Option.some.inj hlater
  rw [List.append_nil, List.append_nil] at hsegment
  exact hsegment

/-- The segments before it are ended. -/
theorem mem_dropLast_splitAtByte {k : Nat} (h : (splitAtByte sep s)[k]? = some t)
    (hk : k < s.count sep) : t ∈ (splitAtByte sep s).dropLast := by
  rw [← length_dropLast_splitAtByte, List.length_dropLast] at hk
  exact List.mem_of_getElem? ((List.getElem?_dropLast).trans ((if_pos hk).trans h))

end Bytes

/-! ## 2. Sources, read by read -/

section

variable {σ : Type} [ByteSource σ]

/-- **What a source hands out**: the bytes of each read, and the failure that comes in place of the
    end. -/
inductive HandsOut : σ → List Bytes → Option Disconnect → Prop where
  | ended {source after : σ} (read : ByteSource.read source = (.bytes [], after)) :
      HandsOut source [] none
  | failed {source after : σ} {d : Disconnect}
      (read : ByteSource.read source = (.failed d, after)) : HandsOut source [] (some d)
  | piece {source after : σ} {b : UInt8} {bs : Bytes} {pieces : List Bytes}
      {lost : Option Disconnect} (read : ByteSource.read source = (.bytes (b :: bs), after))
      (later : HandsOut after pieces lost) : HandsOut source ((b :: bs) :: pieces) lost

end

/-- A source that is known in advance, read by read. -/
structure Portions where
  /-- The bytes of the reads that are still to come. -/
  pieces : List Bytes
  /-- The failure that comes in place of the end. -/
  failure : Option Disconnect := none

namespace Portions

/-- The next read. -/
def read (p : Portions) : ReadOutcome × Portions :=
  match p.pieces with
  | [] => (p.failure.elim (.bytes []) .failed, p)
  | piece :: pieces => (.bytes piece, { p with pieces })

instance : ByteSource Portions := ⟨read⟩

/-- Any bytes may be handed out in reads of any sizes, and then end or fail. -/
theorem handsOut {pieces : List Bytes} (hfull : ∀ piece ∈ pieces, piece ≠ [])
    (failure : Option Disconnect) : HandsOut ({ pieces, failure } : Portions) pieces failure := by
  induction pieces with
  | nil =>
    cases failure with
    | none => exact .ended rfl
    | some d => exact .failed rfl
  | cons piece pieces ih =>
    obtain ⟨hpiece, hpieces⟩ := List.forall_mem_cons.mp hfull
    cases piece with
    | nil => exact absurd rfl hpiece
    | cons b bs => exact .piece rfl (ih hpieces)

end Portions

namespace LineReader

/-! ## 3. Calls and answers -/

section

variable {σ : Type} [ByteSource σ]

/-- **What the call with this number brings**, counted from 0. -/
def outcomeAt (r : LineReader) (source : σ) : Nat → Outcome
  | 0 => (r.nextLine source).1
  | k + 1 => outcomeAt (r.nextLine source).2.1 (r.nextLine source).2.2 k

end

/-- **What the calls should bring**, one after another: the lines of the body and, where a failure
    comes in place of its end, this failure. -/
def answers (data : Bytes) (lost : Option Disconnect) : List Outcome :=
  (data.bodyLines lost.isNone).map (fun line => .ok (some line)) ++ lost.toList.map .error

/-- What the call with this number should bring; behind the last answer there is nothing more. -/
def answerAt (data : Bytes) (lost : Option Disconnect) (k : Nat) : Outcome :=
  (answers data lost)[k]?.getD (.ok none)

/-- **A line up to this number is refused**: a read ends inside of it, behind more than `limit` of
    its bytes. Some of the reads bring no more than this many line feeds, and more than `limit`
    bytes after the last of them. -/
def Refused (limit : Nat) (pieces : List Bytes) (k : Nat) : Prop :=
  ∃ reads ∈ pieces.inits, reads.flatten.count 0x0A ≤ k ∧
    limit < (Bytes.afterLast 0x0A reads.flatten).length

instance (limit : Nat) (pieces : List Bytes) (k : Nat) : Decidable (Refused limit pieces k) :=
  inferInstanceAs (Decidable (∃ reads ∈ pieces.inits, _))

variable {limit k : Nat} {held piece segment later data : Bytes} {pieces : List Bytes}
  {lost : Option Disconnect}

/-! ### Answers along a body -/

theorem answerAt_line_zero (hno : 0x0A ∉ segment) (later : Bytes) (lost : Option Disconnect) :
    answerAt (segment ++ 0x0A :: later) lost 0 = .ok (some (Bytes.withoutReturn segment)) := by
  rw [answerAt, answers, Bytes.bodyLines_append_newline hno]
  rfl

theorem answerAt_line_succ (hno : 0x0A ∉ segment) (later : Bytes) (lost : Option Disconnect)
    (k : Nat) : answerAt (segment ++ 0x0A :: later) lost (k + 1) = answerAt later lost k := by
  rw [answerAt, answers, Bytes.bodyLines_append_newline hno]
  rfl

/-- Behind the last line feed a body that ends has its tail, unless it is empty. -/
theorem answers_tail (hno : 0x0A ∉ data) :
    answers data none =
      if data = [] then [] else [.ok (some (Bytes.withoutReturn data))] := by
  rw [answers, Bytes.bodyLines_of_notMem hno]
  by_cases hdata : data = [] <;> simp [hdata]

/-- A body that fails has its failure there. -/
theorem answers_lost (hno : 0x0A ∉ data) (d : Disconnect) :
    answers data (some d) = [.error d] := by
  rw [answers, Bytes.bodyLines_of_notMem hno]
  rfl

/-! ### Refusals along the reads -/

theorem mem_inits_cons {reads : List Bytes} : reads ∈ (piece :: pieces).inits ↔
    reads = [] ∨ ∃ later ∈ pieces.inits, reads = piece :: later := by
  rw [List.mem_inits, List.prefix_cons_iff]
  simp only [List.mem_inits, and_comm]

/-- Some reads of which the first brings `held`. -/
theorem refused_cons_iff : Refused limit (held :: pieces) k ↔
    ∃ reads ∈ pieces.inits, (held ++ reads.flatten).count 0x0A ≤ k ∧
      limit < (Bytes.afterLast 0x0A (held ++ reads.flatten)).length := by
  constructor
  · rintro ⟨reads, hreads, hle, hlt⟩
    rcases mem_inits_cons.mp hreads with rfl | ⟨later, hlater, rfl⟩
    · exact absurd hlt (Nat.not_lt_zero limit)
    · exact ⟨later, hlater, hle, hlt⟩
  · rintro ⟨reads, hreads, hle, hlt⟩
    exact ⟨held :: reads, mem_inits_cons.mpr (.inr ⟨reads, hreads, rfl⟩), hle, hlt⟩

theorem refused_nil_cons_iff : Refused limit ([] :: pieces) k ↔ Refused limit pieces k := by
  rw [refused_cons_iff]
  rfl

/-- A line that has come whole is not refused. -/
theorem not_refused_line (hno : 0x0A ∉ segment) :
    ¬ Refused limit ((segment ++ 0x0A :: held) :: pieces) 0 := by
  rw [refused_cons_iff]
  rintro ⟨reads, -, hle, -⟩
  rw [List.append_assoc, List.cons_append, Bytes.count_append_sep hno] at hle
  omega

/-- And the lines behind it are refused as if it had not been there. -/
theorem refused_line_succ_iff (hno : 0x0A ∉ segment) :
    Refused limit ((segment ++ 0x0A :: held) :: pieces) (k + 1) ↔
      Refused limit (held :: pieces) k := by
  rw [refused_cons_iff, refused_cons_iff]
  refine exists_congr fun reads => and_congr_right fun _ => ?_
  rw [List.append_assoc, List.cons_append, Bytes.count_append_sep hno,
    Bytes.afterLast_append_sep, Nat.add_le_add_iff_right]

/-- What is held of a line refuses it when it is too long. -/
theorem refused_of_lt (hno : 0x0A ∉ held) (hlt : limit < held.length) (pieces : List Bytes)
    (k : Nat) : Refused limit (held :: pieces) k := by
  refine refused_cons_iff.mpr ⟨[], (List.mem_inits _ _).mpr (List.nil_prefix), ?_, ?_⟩
  · rw [List.flatten_nil, List.append_nil, List.count_eq_zero_of_not_mem hno]
    exact Nat.zero_le k
  · rw [List.flatten_nil, List.append_nil, Bytes.afterLast_of_notMem hno]
    exact hlt

/-- What is held of a line and not too long can be read on. -/
theorem refused_fill_iff (hno : 0x0A ∉ held) (hle : held.length ≤ limit) :
    Refused limit (held :: piece :: pieces) k ↔ Refused limit ((held ++ piece) :: pieces) k := by
  rw [refused_cons_iff, refused_cons_iff]
  constructor
  · rintro ⟨reads, hreads, hcount, hlt⟩
    rcases mem_inits_cons.mp hreads with rfl | ⟨later, hlater, rfl⟩
    · rw [List.flatten_nil, List.append_nil, Bytes.afterLast_of_notMem hno] at hlt
      omega
    · rw [List.flatten_cons, ← List.append_assoc] at hcount hlt
      exact ⟨later, hlater, hcount, hlt⟩
  · rintro ⟨reads, hreads, hcount, hlt⟩
    rw [List.append_assoc, ← List.flatten_cons] at hcount hlt
    exact ⟨piece :: reads, mem_inits_cons.mpr (.inr ⟨reads, hreads, rfl⟩), hcount, hlt⟩

theorem not_refused_last (hno : 0x0A ∉ held) (hle : held.length ≤ limit) :
    ¬ Refused limit [held] k := by
  rw [refused_cons_iff]
  rintro ⟨reads, hreads, -, hlt⟩
  obtain rfl := List.prefix_nil.mp ((List.mem_inits _ _).mp hreads)
  rw [List.flatten_nil, List.append_nil, Bytes.afterLast_of_notMem hno] at hlt
  omega

/-! ## 4. One call -/

section

variable {σ : Type} [ByteSource σ] {r r' next : LineReader} {source source' : σ}

/-- Calls that do the same leave the same to come. -/
theorem outcomeAt_congr (h : r.nextLine source = r'.nextLine source') (k : Nat) :
    r.outcomeAt source k = r'.outcomeAt source' k := by
  cases k with
  | zero => rw [outcomeAt, outcomeAt, h]
  | succ k => rw [outcomeAt, outcomeAt, h]

/-- A reader that has nothing left says so from then on. -/
theorem Exhausted.outcomeAt (h : r.Exhausted) (source : σ) (k : Nat) :
    r.outcomeAt source k = .ok none := by
  induction k generalizing r with
  | zero =>
    obtain ⟨next, hcall, -⟩ := h.call source
    rw [LineReader.outcomeAt, hcall]
  | succ k ih =>
    obtain ⟨next, hcall, hnext⟩ := h.call source
    rw [LineReader.outcomeAt, hcall]
    exact ih hnext

/-- A look that gives up leaves the line as it is, so the next look gives up as well. -/
theorem scan_of_overLimit (hr : r.Ready) (hscan : r.scan = .overLimit next) :
    next.Ready ∧ next.scan = .overLimit next := by
  obtain ⟨hno, hlt⟩ := scan_overLimit hr hscan
  obtain rfl : next = { r with scanFrom := r.buffer.length } := by
    unfold scan at hscan
    split at hscan
    · cases hscan
    · dsimp only at hscan
      split at hscan <;> cases hscan
      rfl
  refine ⟨⟨Nat.le_trans hr.start_le hr.scanFrom_le, Nat.le_refl _, ?_⟩, ?_⟩
  · exact fun hmem => hno (List.mem_of_mem_take hmem)
  · have hlimit : r.limit < r.buffer.length - r.start := by
      rw [pending, List.length_drop] at hlt
      exact hlt
    unfold scan
    rw [List.drop_length]
    exact if_pos hlimit

/-- **A line over the limit is refused for good.** -/
theorem outcomeAt_of_overLimit (hr : r.Ready) (hscan : r.scan = .overLimit next) (source : σ)
    (k : Nat) : r.outcomeAt source k = .error tooLong := by
  induction k generalizing r with
  | zero => rw [outcomeAt, nextLine_of_overLimit hscan]
  | succ k ih =>
    obtain ⟨hready, hagain⟩ := scan_of_overLimit hr hscan
    rw [outcomeAt, nextLine_of_overLimit hscan]
    exact ih hready hagain

/-- The reader after a read that failed. -/
theorem exhausted_finish_failed (r : LineReader) (d : Disconnect) :
    (r.fill (.failed d)).finish.2.Exhausted :=
  ⟨ready_reset { r with ended := true, failure := none }, rfl, rfl, rfl⟩

/-- The last calls: what is held is the last line, or there is none; then there is nothing more. -/
theorem outcomeAt_of_end (hr : r.Ready) (hf : r.failure = none) (hopen : r.ended = false)
    (hscan : r.scan = .hungry next) {after : σ}
    (hread : ByteSource.read source = (.bytes [], after)) (k : Nat) :
    r.outcomeAt source k = answerAt r.pending none k := by
  obtain ⟨hready, -, hfail, hpend, hno, -⟩ := scan_hungry hr hscan
  have hexhausted := exhausted_finish_fill hready (hfail.trans hf)
  have hcall := nextLine_of_hungry source hscan
  rw [ended_of_scan_hungry hscan, hopen, if_neg Bool.false_ne_true, hread] at hcall
  rw [answerAt, answers_tail hno]
  cases k with
  | zero =>
    rw [outcomeAt, hcall]
    show (next.fill (.bytes [])).finish.1 = _
    rw [finish_fill_end (hfail.trans hf), hpend]
    split <;> rfl
  | succ k =>
    rw [outcomeAt, hcall]
    refine (hexhausted.outcomeAt after k).trans ?_
    split <;> rfl

/-- The last calls when the source fails: the failure, once, then there is nothing more. -/
theorem outcomeAt_of_failure (hr : r.Ready) (hopen : r.ended = false)
    (hscan : r.scan = .hungry next) {d : Disconnect} {after : σ}
    (hread : ByteSource.read source = (.failed d, after)) (k : Nat) :
    r.outcomeAt source k = answerAt r.pending (some d) k := by
  obtain ⟨-, -, -, -, hno, -⟩ := scan_hungry hr hscan
  have hcall := nextLine_of_hungry source hscan
  rw [ended_of_scan_hungry hscan, hopen, if_neg Bool.false_ne_true, hread] at hcall
  rw [answerAt, answers_lost hno]
  cases k with
  | zero =>
    rw [outcomeAt, hcall]
    rfl
  | succ k =>
    rw [outcomeAt, hcall]
    exact (exhausted_finish_failed next d).outcomeAt after k

/-! ## 5. All calls -/

/-- **The call brings its answer, unless a line is refused.** What the reader holds counts as a read
    of its own. -/
def BringsAnswer (r : LineReader) (source : σ) (pieces : List Bytes) (lost : Option Disconnect)
    (k : Nat) : Prop :=
  r.outcomeAt source k =
    if Refused r.limit (r.pending :: pieces) k then .error tooLong
    else answerAt (r.pending ++ pieces.flatten) lost k

/-- Readers that find a line, or give up, need no read, so it is enough to look at the others: by
    induction on the number of the call. -/
theorem bringsAnswer_of_hungry
    (h : ∀ {r next : LineReader} (k : Nat), r.Ready → r.failure = none → r.ended = false →
      r.scan = .hungry next → BringsAnswer r source pieces lost k)
    (hr : r.Ready) (hf : r.failure = none) (hopen : r.ended = false) (k : Nat) :
    BringsAnswer r source pieces lost k := by
  induction k generalizing r with
  | zero =>
    cases hscan : r.scan with
    | line content next =>
      obtain ⟨-, -, -, segment, hno, hpend, rfl⟩ := scan_line hr hscan
      rw [BringsAnswer, hpend, List.append_assoc, List.cons_append, outcomeAt,
        nextLine_of_line hscan, if_neg (not_refused_line hno), answerAt_line_zero hno]
    | overLimit next =>
      obtain ⟨hno, hlt⟩ := scan_overLimit hr hscan
      rw [BringsAnswer, if_pos (refused_of_lt hno hlt pieces 0)]
      exact outcomeAt_of_overLimit hr hscan source 0
    | hungry next => exact h 0 hr hf hopen hscan
  | succ k ih =>
    cases hscan : r.scan with
    | line content next =>
      obtain ⟨hready, hlimit, hfail, segment, hno, hpend, rfl⟩ := scan_line hr hscan
      have hnext := ih hready (hfail.trans hf) ((ended_of_scan_line hscan).trans hopen)
      rw [BringsAnswer, hlimit] at hnext
      rw [BringsAnswer, hpend, List.append_assoc, List.cons_append, outcomeAt,
        nextLine_of_line hscan, answerAt_line_succ hno, hnext]
      exact if_congr (refused_line_succ_iff hno).symm rfl rfl
    | overLimit next =>
      obtain ⟨hno, hlt⟩ := scan_overLimit hr hscan
      rw [BringsAnswer, if_pos (refused_of_lt hno hlt pieces (k + 1))]
      exact outcomeAt_of_overLimit hr hscan source (k + 1)
    | hungry next => exact h (k + 1) hr hf hopen hscan

/-- **Every call of every reader brings its answer, unless a line is refused**: by induction on the
    reads that are left. -/
theorem bringsAnswer (hd : HandsOut source pieces lost) (hr : r.Ready)
    (hf : r.failure = none) (hopen : r.ended = false) (k : Nat) :
    BringsAnswer r source pieces lost k := by
  induction hd generalizing r k with
  | ended read =>
    refine bringsAnswer_of_hungry (fun k hr hf hopen hscan => ?_) hr hf hopen k
    obtain ⟨-, -, -, -, hno, hle⟩ := scan_hungry hr hscan
    rw [BringsAnswer, if_neg (not_refused_last hno hle), List.flatten_nil, List.append_nil]
    exact outcomeAt_of_end hr hf hopen hscan read k
  | failed read =>
    refine bringsAnswer_of_hungry (fun k hr hf hopen hscan => ?_) hr hf hopen k
    obtain ⟨-, -, -, -, hno, hle⟩ := scan_hungry hr hscan
    rw [BringsAnswer, if_neg (not_refused_last hno hle), List.flatten_nil, List.append_nil]
    exact outcomeAt_of_failure hr hopen hscan read k
  | @piece source after b bs pieces lost read later ih =>
    refine bringsAnswer_of_hungry (fun {r next} k hr hf hopen hscan => ?_) hr hf hopen k
    obtain ⟨hready, hlimit, hfail, hpend, hno, hle⟩ := scan_hungry hr hscan
    have hstill := (ended_of_scan_hungry hscan).trans hopen
    have hcall := nextLine_of_hungry source hscan
    rw [hstill, if_neg Bool.false_ne_true, read] at hcall
    have hfilled : (next.fill (.bytes (b :: bs))).limit = r.limit := hlimit
    have hnext := @ih (next.fill (.bytes (b :: bs))) (hready.fill b bs) (hfail.trans hf) hstill k
    rw [BringsAnswer, pending_fill, hpend, hfilled, List.append_assoc, ← List.flatten_cons] at hnext
    rw [BringsAnswer, outcomeAt_congr hcall, hnext]
    exact if_congr (refused_fill_iff hno hle).symm rfl rfl

/-- The calls of a reader that has not read yet. -/
theorem outcomeAt_eq (hd : HandsOut source pieces lost) (limit k : Nat) :
    outcomeAt { limit } source k =
      if Refused limit pieces k then .error tooLong else answerAt pieces.flatten lost k := by
  have hanswers : BringsAnswer { limit } source pieces lost k :=
    bringsAnswer hd (ready_empty limit) rfl rfl k
  exact hanswers.trans (if_congr refused_nil_cons_iff rfl rfl)

/-! ## 6. Lines within the limit -/

/-- **Where the ended lines are within the limit**, only the tail can be refused. -/
theorem refused_iff_of_fit
    (hfit : ∀ segment ∈ (Bytes.splitAtByte 0x0A pieces.flatten).dropLast, segment.length ≤ limit) :
    Refused limit pieces k ↔ pieces.flatten.count 0x0A ≤ k ∧
      limit < (Bytes.afterLast 0x0A pieces.flatten).length := by
  constructor
  · rintro ⟨reads, hreads, hle, hlt⟩
    obtain ⟨later, rfl⟩ := (List.mem_inits _ _).mp hreads
    rw [List.flatten_append] at hfit ⊢
    obtain ⟨rest, -, hsegment⟩ := @Bytes.exists_segment 0x0A reads.flatten later.flatten
    have hlength : limit < (Bytes.afterLast 0x0A reads.flatten ++ rest).length := by
      rw [List.length_append]
      omega
    -- a segment that is not the last one is ended, and within the limit
    have hlast : (reads.flatten ++ later.flatten).count 0x0A ≤ reads.flatten.count 0x0A := by
      by_contra hbefore
      have hended := hfit _ (Bytes.mem_dropLast_splitAtByte hsegment (Nat.lt_of_not_le hbefore))
      omega
    have hcount : reads.flatten.count 0x0A = (reads.flatten ++ later.flatten).count 0x0A := by
      rw [List.count_append] at hlast ⊢
      omega
    rw [hcount, Bytes.getElem?_splitAtByte_count] at hsegment
    refine ⟨Nat.le_trans hlast hle, ?_⟩
    rw [Option.some.inj hsegment]
    exact hlength
  · rintro ⟨hle, hlt⟩
    exact ⟨pieces, (List.mem_inits _ _).mpr (List.prefix_refl pieces), hle, hlt⟩

/-- **The calls bring the lines of the body**, whatever the reads, when each segment up to its line
    feed is within the limit: each line without its carriage return, then the tail of a body that
    ends, unless it is empty, and for good that there is nothing more; the tail of a body that fails
    is dropped, and the failure is brought once. A tail over the limit is refused for good. -/
theorem calls_bring_lines (hd : HandsOut source pieces lost)
    (hfit : ∀ segment ∈ (Bytes.splitAtByte 0x0A pieces.flatten).dropLast,
      segment.length ≤ limit) :
    ((Bytes.afterLast 0x0A pieces.flatten).length ≤ limit →
      ∀ k, outcomeAt { limit } source k = answerAt pieces.flatten lost k) ∧
    (limit < (Bytes.afterLast 0x0A pieces.flatten).length →
      ∀ k, outcomeAt { limit } source k =
        if pieces.flatten.count 0x0A ≤ k then .error tooLong
        else answerAt pieces.flatten lost k) := by
  constructor
  · intro htail k
    have hnot : ¬ Refused limit pieces k := fun hrefused => by
      have hlong := ((refused_iff_of_fit hfit).mp hrefused).2
      omega
    rw [outcomeAt_eq hd, if_neg hnot]
  · intro htail k
    rw [outcomeAt_eq hd]
    refine if_congr ?_ rfl rfl
    rw [refused_iff_of_fit hfit]
    exact and_iff_left htail

/-- Two lines that end in `"\r\n"`, an empty one and a tail, cut between the two bytes of a line
    end; the same with a failure behind it. -/
theorem calls_bring_lines_across_reads :
    let pieces : List Bytes := ["a\r", "\n\nb", "c\r", "\nta", "il"]
    let lost : Disconnect := ⟨"connection reset by peer", false⟩
    (∀ segment ∈ (Bytes.splitAtByte 0x0A pieces.flatten).dropLast, segment.length ≤ 4) ∧
    (Bytes.afterLast 0x0A pieces.flatten).length ≤ 4 ∧
    (∀ k, outcomeAt { limit := 4 } ({ pieces } : Portions) k =
      answerAt pieces.flatten none k) ∧
    (∀ k, outcomeAt { limit := 4 } ({ pieces, failure := some lost } : Portions) k =
      answerAt pieces.flatten (some lost) k) ∧
    answers pieces.flatten none =
      [.ok (some "a"), .ok (some []), .ok (some "bc"), .ok (some "tail")] ∧
    answers pieces.flatten (some lost) =
      [.ok (some "a"), .ok (some []), .ok (some "bc"), .error lost] := by
  intro pieces lost
  have hfull : ∀ piece ∈ pieces, piece ≠ [] := by decide
  have hfit : ∀ segment ∈ (Bytes.splitAtByte 0x0A pieces.flatten).dropLast,
      segment.length ≤ 4 := by decide
  have htail : (Bytes.afterLast 0x0A pieces.flatten).length ≤ 4 := by decide
  exact ⟨hfit, htail, (calls_bring_lines (Portions.handsOut hfull none) hfit).1 htail,
    (calls_bring_lines (Portions.handsOut hfull (some lost)) hfit).1 htail, rfl, rfl⟩

end

end LineReader

end ChatRelay
