import ChatRelay.Proofs.LineCalls

/-!
# Where the limit on lines holds

A line reader asks for the limit only while it has not seen the end of a line. So a line over the
limit is refused when a read ends inside of it, behind more than `limit` of its bytes, and brought
when its end comes in earlier: that depends on how the body is cut into reads.

* `Bytes.Overlong` -- what the limit is about: a line that is longer, without its carriage return;
* `LineReader.length_ended_le` -- what bounds every line that is brought: the limit and one read;
* `LineReader.refuses_where_reads_end` -- which lines are refused, for all reads, and that these are
  the overlong ones if the reads end inside of those and of no other;
* `LineReader.overlong_line_brought` -- a body whose line is brought by one read and refused by two.
-/

namespace ChatRelay

namespace Bytes

variable {sep : UInt8} {s t : Bytes} {k : Nat}

/-- The segment with this number is longer than the limit, without a closing carriage return. -/
def Overlong (limit : Nat) (data : Bytes) (k : Nat) : Prop :=
  ∃ segment ∈ (splitAtByte 0x0A data)[k]?, limit < (withoutReturn segment).length

instance (limit : Nat) (data : Bytes) (k : Nat) : Decidable (Overlong limit data k) :=
  inferInstanceAs (Decidable (∃ segment ∈ (splitAtByte 0x0A data)[k]?, _))

theorem length_withoutReturn_le (s : Bytes) : (withoutReturn s).length ≤ s.length := by
  rw [← LineReader.chop_eq, LineReader.chop]
  split
  · rw [List.length_dropLast]
    exact Nat.sub_le _ _
  · exact Nat.le_refl _

/-- An ended segment is shorter than the text, which has a separator besides. -/
theorem length_lt_of_ended (h : (splitAtByte sep s)[k]? = some t) (hk : k < s.count sep) :
    t.length < s.length := by
  induction s using segments_induction sep generalizing k with
  | last u hu =>
    rw [List.count_eq_zero_of_not_mem hu] at hk
    cases hk
  | ended u v hu ih =>
    rw [splitAtByte_append_sep hu] at h
    rw [count_append_sep hu] at hk
    rw [List.length_append, List.length_cons]
    cases k with
    | zero =>
      obtain rfl := Option.some.inj h
      omega
    | succ k =>
      have hlt := ih h (Nat.lt_of_succ_lt_succ hk)
      omega

end Bytes

namespace LineReader

variable {limit m k : Nat} {line segment data : Bytes} {pieces reads : List Bytes}
  {lost : Option Disconnect}

/-! ## 1. Lines that are brought -/

/-- A line that should be brought is a segment without its carriage return. -/
theorem exists_segment_of_answerAt (h : answerAt data lost k = .ok (some line)) :
    ∃ segment, (Bytes.splitAtByte 0x0A data)[k]? = some segment ∧
      line = Bytes.withoutReturn segment := by
  induction data using Bytes.segments_induction 0x0A generalizing k with
  | last u hu =>
    rw [Bytes.splitAtByte_of_notMem hu]
    cases lost with
    | some d =>
      rw [answerAt, answers_lost hu] at h
      cases k <;> cases h
    | none =>
      rw [answerAt, answers_tail hu] at h
      split at h
      · cases h
      · cases k with
        | zero =>
          cases h
          exact ⟨u, rfl, rfl⟩
        | succ k => cases h
  | ended u v hu ih =>
    rw [Bytes.splitAtByte_append_sep hu]
    cases k with
    | zero =>
      rw [answerAt_line_zero hu] at h
      cases h
      exact ⟨u, rfl, rfl⟩
    | succ k =>
      rw [answerAt_line_succ hu] at h
      exact ih h

theorem Refused.append (h : Refused limit pieces k) (later : List Bytes) :
    Refused limit (pieces ++ later) k := by
  obtain ⟨reads, hreads, hle, hlt⟩ := h
  refine ⟨reads, (List.mem_inits _ _).mpr ?_, hle, hlt⟩
  exact ((List.mem_inits _ _).mp hreads).trans (List.prefix_append pieces later)

/-- What has come of a line after all reads, when no line so far is refused. -/
theorem length_afterLast_le (h : ¬ Refused limit pieces k) (hk : pieces.flatten.count 0x0A ≤ k) :
    (Bytes.afterLast 0x0A pieces.flatten).length ≤ limit := by
  by_contra hlt
  exact h ⟨pieces, (List.mem_inits _ _).mpr (List.prefix_refl pieces), hk, by omega⟩

/-- **A line that is not refused is not longer than the limit and what one read brings** before the
    line feed; by induction on the reads, from the first one. -/
theorem length_ended_le (h : ¬ Refused limit pieces k) (hm : ∀ piece ∈ pieces, piece.length ≤ m)
    (hsegment : (Bytes.splitAtByte 0x0A pieces.flatten)[k]? = some segment)
    (hk : k < pieces.flatten.count 0x0A) : segment.length ≤ limit + (m - 1) := by
  induction pieces using List.reverseRecOn with
  | nil => cases hk
  | append_singleton pieces piece ih =>
    have hbefore : ¬ Refused limit pieces k := fun hrefused => h (hrefused.append [piece])
    obtain ⟨hpieces, hpiece⟩ := List.forall_mem_append.mp hm
    have hlength := hpiece piece (List.mem_singleton_self piece)
    rw [List.flatten_append, List.flatten_singleton] at hsegment hk
    by_cases hended : k < pieces.flatten.count 0x0A
    · -- the line had come whole before the last read
      refine ih hbefore hpieces ?_ hended
      rw [Bytes.splitAtByte_append_eq, List.getElem?_append_left
        (by rw [Bytes.length_dropLast_splitAtByte]; exact hended),
        List.getElem?_dropLast] at hsegment
      split at hsegment
      · exact hsegment
      · cases hsegment
    · -- the last read brings its end
      have hheld := length_afterLast_le hbefore (Nat.le_of_not_lt hended)
      rw [Bytes.splitAtByte_append_eq, List.getElem?_append_right
        (by rw [Bytes.length_dropLast_splitAtByte]; exact Nat.le_of_not_lt hended),
        Bytes.length_dropLast_splitAtByte, List.getElem?_modifyHead] at hsegment
      rw [List.count_append] at hk
      have hinside : k - pieces.flatten.count 0x0A < piece.count 0x0A := by omega
      split at hsegment
      · obtain ⟨rest, hrest, rfl⟩ := Option.map_eq_some_iff.mp hsegment
        have hlt := Bytes.length_lt_of_ended hrest hinside
        rw [List.length_append]
        omega
      · have hlt := Bytes.length_lt_of_ended hsegment hinside
        omega

/-- The same of the tail, which is not longer than the limit at all. -/
theorem length_segment_le (h : ¬ Refused limit pieces k) (hm : ∀ piece ∈ pieces, piece.length ≤ m)
    (hsegment : (Bytes.splitAtByte 0x0A pieces.flatten)[k]? = some segment) :
    segment.length ≤ limit + (m - 1) := by
  by_cases hk : k < pieces.flatten.count 0x0A
  · exact length_ended_le h hm hsegment hk
  · have hcount := Nat.le_of_not_lt hk
    have htail := length_afterLast_le h hcount
    have hindex : k < (Bytes.splitAtByte 0x0A pieces.flatten).length :=
      (List.getElem?_eq_some_iff.mp hsegment).1
    have hlength := @Bytes.length_dropLast_splitAtByte 0x0A pieces.flatten
    rw [List.length_dropLast] at hlength
    obtain rfl : k = pieces.flatten.count 0x0A := by omega
    rw [Bytes.getElem?_splitAtByte_count] at hsegment
    rw [← Option.some.inj hsegment]
    omega

/-! ## 2. Lines that are refused -/

/-- **A read ends inside of the line** with this number, behind more than `limit` of its bytes: some
    of the reads bring this many line feeds and more than `limit` bytes after the last of them. -/
def Caught (limit : Nat) (pieces : List Bytes) (k : Nat) : Prop :=
  ∃ reads ∈ pieces.inits, reads.flatten.count 0x0A = k ∧
    limit < (Bytes.afterLast 0x0A reads.flatten).length

instance (limit : Nat) (pieces : List Bytes) (k : Nat) : Decidable (Caught limit pieces k) :=
  inferInstanceAs (Decidable (∃ reads ∈ pieces.inits, _))

theorem refused_iff : Refused limit pieces k ↔ ∃ j ≤ k, Caught limit pieces j := by
  constructor
  · rintro ⟨reads, hreads, hle, hlt⟩
    exact ⟨_, hle, reads, hreads, rfl, hlt⟩
  · rintro ⟨j, hle, reads, hreads, rfl, hlt⟩
    exact ⟨reads, hreads, hle, hlt⟩

section

variable {σ : Type} [ByteSource σ] {source : σ}

/-- A call that brings a line: no line so far is refused, and the line is a segment. -/
theorem exists_segment_of_outcomeAt (hd : HandsOut source pieces lost)
    (h : outcomeAt { limit } source k = .ok (some line)) :
    ¬ Refused limit pieces k ∧ ∃ segment,
      (Bytes.splitAtByte 0x0A pieces.flatten)[k]? = some segment ∧
        line = Bytes.withoutReturn segment := by
  rw [outcomeAt_eq hd] at h
  split at h
  · cases h
  · rename_i hnot
    exact ⟨hnot, exists_segment_of_answerAt h⟩

/-- **Where the limit holds.** For all reads that a source hands out: a line is refused, for good,
    exactly when a read ends inside of it or of a line before it, behind more than `limit` of its
    bytes. So no line that is brought is longer than the limit and one read, less its line feed. And
    if the reads end so inside of each overlong line and of no other, then the overlong lines are
    the refused ones, however the body is cut else, and no longer line is brought. -/
theorem refuses_where_reads_end (hd : HandsOut source pieces lost) (limit : Nat) :
    (∀ k, outcomeAt { limit } source k =
      if ∃ j ≤ k, Caught limit pieces j then .error tooLong
      else answerAt pieces.flatten lost k) ∧
    (∀ m, (∀ piece ∈ pieces, piece.length ≤ m) → ∀ k line,
      outcomeAt { limit } source k = .ok (some line) → line.length ≤ limit + (m - 1)) ∧
    ((∀ j, Caught limit pieces j ↔ Bytes.Overlong limit pieces.flatten j) → ∀ k,
      (outcomeAt { limit } source k =
        if ∃ j ≤ k, Bytes.Overlong limit pieces.flatten j then .error tooLong
        else answerAt pieces.flatten lost k) ∧
      ∀ line, outcomeAt { limit } source k = .ok (some line) → line.length ≤ limit) := by
  have hexact (k : Nat) : outcomeAt { limit } source k =
      if ∃ j ≤ k, Caught limit pieces j then .error tooLong
      else answerAt pieces.flatten lost k :=
    (outcomeAt_eq hd limit k).trans (if_congr refused_iff rfl rfl)
  refine ⟨hexact, fun m hm k line hline => ?_, fun hcaught k => ⟨?_, fun line hline => ?_⟩⟩
  · obtain ⟨hnot, segment, hsegment, rfl⟩ := exists_segment_of_outcomeAt hd hline
    exact Nat.le_trans (Bytes.length_withoutReturn_le segment) (length_segment_le hnot hm hsegment)
  · rw [hexact]
    exact if_congr (exists_congr fun j => and_congr_right fun _ => hcaught j) rfl rfl
  · obtain ⟨hnot, segment, hsegment, rfl⟩ := exists_segment_of_outcomeAt hd hline
    by_contra hlt
    refine hnot (refused_iff.mpr ⟨k, Nat.le_refl k, (hcaught k).mpr ⟨segment, hsegment, ?_⟩⟩)
    omega

/-- Reads of two bytes, which end inside of the one line that is overlong. -/
theorem refuses_where_reads_end_by_twos :
    let pieces : List Bytes := ["ab", "\n0", "12", "34", "56", "78", "9\n", "c\n"]
    let source : Portions := { pieces }
    (∀ j, Caught 4 pieces j ↔ Bytes.Overlong 4 pieces.flatten j) ∧
    outcomeAt { limit := 4 } source 0 = .ok (some "ab") ∧
    outcomeAt { limit := 4 } source 1 = .error tooLong ∧
    outcomeAt { limit := 4 } source 2 = .error tooLong := by
  intro pieces source
  have hfull : ∀ piece ∈ pieces, piece ≠ [] := by decide
  have hcaught : ∀ j, Caught 4 pieces j ↔ Bytes.Overlong 4 pieces.flatten j := by
    intro j
    by_cases hj : j < 4
    · have hall : ∀ j < 4, Caught 4 pieces j ↔ Bytes.Overlong 4 pieces.flatten j := by decide
      exact hall j hj
    · -- there are no lines with these numbers
      have hcount : ∀ reads ∈ pieces.inits, reads.flatten.count 0x0A < 4 := by decide
      refine iff_of_false ?_ ?_
      · rintro ⟨reads, hreads, rfl, -⟩
        exact hj (hcount reads hreads)
      · rintro ⟨segment, hsegment, -⟩
        exact hj (List.getElem?_eq_some_iff.mp hsegment).1
  have hlimit := refuses_where_reads_end (Portions.handsOut hfull none) 4
  refine ⟨hcaught, ?_, ?_, ?_⟩
  · exact (hlimit.2.2 hcaught 0).1.trans (by decide)
  · exact (hlimit.2.2 hcaught 1).1.trans (by decide)
  · exact (hlimit.2.2 hcaught 2).1.trans (by decide)

/-- **An overlong line is brought** when one read brings all of it, refused when two reads do. -/
theorem overlong_line_brought :
    let data : Bytes := "0123456789\n"
    outcomeAt { limit := 4 } ({ rest := data } : Body) 0 = .ok (some "0123456789") ∧
    outcomeAt { limit := 4 } ({ rest := data, chunkSize := 6 } : Body) 0 = .error tooLong := by
  intro data
  have hwhole : HandsOut ({ rest := data } : Body) [data] none := .piece rfl (.ended rfl)
  have hcut : HandsOut ({ rest := data, chunkSize := 6 } : Body)
      [("012345" : Bytes), ("6789\n" : Bytes)] none :=
    .piece rfl (.piece rfl (.ended rfl))
  rw [outcomeAt_eq hwhole, outcomeAt_eq hcut]
  decide

end

end LineReader

end ChatRelay
