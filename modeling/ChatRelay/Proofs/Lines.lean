import ChatRelay.Stream.LineReader

/-!
# Lines of a body

What the lines of a body are, said without reading it, and what a line reader makes of them.

* `Bytes.bodyLines` cuts a body at its line feeds: each segment that a line feed ends is a line, and
  the tail behind the last one counts when the body came to its end;
* `LineReader.Ready` is the invariant of the two offsets, and `LineReader.pending` the bytes that
  were read and not yet given out;
* `scan_line`, `scan_hungry`, `scan_overLimit` say what one look into the buffer finds, in terms of
  the pending bytes alone.
-/

namespace ChatRelay

/-! ## 1. Segments -/

namespace Bytes

/-- A segment without the carriage return that it ends with, if it does. -/
def withoutReturn : Bytes → Bytes
  | [] => []
  | [b] => if b = 0x0D then [] else [b]
  | b :: c :: rest => b :: withoutReturn (c :: rest)

/-- The lines of a body; its tail without a line feed is one when the body is `whole` and the tail
    not empty. -/
def bodyLines (data : Bytes) (whole : Bool) : List Bytes :=
  let segments := splitAtByte 0x0A data
  let tail := if whole then segments.getLast?.toList.filter (· ≠ []) else []
  (segments.dropLast ++ tail).map withoutReturn

/-- No segment of the body is longer than the limit. -/
def SegmentsFit (limit : Nat) (data : Bytes) : Prop :=
  ∀ segment ∈ splitAtByte 0x0A data, segment.length ≤ limit

variable {sep : UInt8} {u v : Bytes}

theorem splitAtByte_ne_nil (sep : UInt8) (s : Bytes) : splitAtByte sep s ≠ [] := by
  cases s with
  | nil => simp [splitAtByte]
  | cons b s =>
    simp only [splitAtByte]
    split
    · simp
    · split <;> simp

/-- Bytes without the separator only make the first piece longer. -/
theorem splitAtByte_append (hu : sep ∉ u) :
    splitAtByte sep (u ++ v) = (splitAtByte sep v).modifyHead (u ++ ·) := by
  induction u with
  | nil =>
    rw [List.nil_append]
    cases splitAtByte sep v <;> rfl
  | cons b u ih =>
    have hb : b ≠ sep := fun e => hu (e ▸ List.mem_cons_self)
    rw [List.cons_append, splitAtByte, if_neg hb, ih fun h => hu (List.mem_cons_of_mem b h)]
    cases hv : splitAtByte sep v with
    | nil => exact absurd hv (splitAtByte_ne_nil sep v)
    | cons piece rest => rfl

theorem splitAtByte_of_notMem (hu : sep ∉ u) : splitAtByte sep u = [u] := by
  have h := splitAtByte_append (v := []) hu
  rw [List.append_nil] at h
  simpa [splitAtByte] using h

/-- The separator ends the first piece. -/
theorem splitAtByte_append_sep (hu : sep ∉ u) (v : Bytes) :
    splitAtByte sep (u ++ sep :: v) = u :: splitAtByte sep v := by
  rw [splitAtByte_append hu]
  simp [splitAtByte]

/-- **The first line of a body** ends at the first line feed. -/
theorem bodyLines_append_newline (hu : 0x0A ∉ u) (v : Bytes) (whole : Bool) :
    bodyLines (u ++ 0x0A :: v) whole = withoutReturn u :: bodyLines v whole := by
  unfold bodyLines
  rw [splitAtByte_append_sep hu]
  cases hv : splitAtByte 0x0A v with
  | nil => exact absurd hv (splitAtByte_ne_nil _ v)
  | cons piece rest => simp

/-- Without a line feed there is only the tail. -/
theorem bodyLines_of_notMem (hu : 0x0A ∉ u) (whole : Bool) :
    bodyLines u whole = if whole = true ∧ u ≠ [] then [withoutReturn u] else [] := by
  unfold bodyLines
  rw [splitAtByte_of_notMem hu]
  cases whole with
  | false => simp
  | true => by_cases hu : u = [] <;> simp [hu]

theorem SegmentsFit.tail {limit : Nat} (hu : 0x0A ∉ u) (h : SegmentsFit limit (u ++ 0x0A :: v)) :
    SegmentsFit limit v := by
  intro segment hs
  refine h segment ?_
  rw [splitAtByte_append_sep hu]
  exact List.mem_cons_of_mem u hs

/-- The beginning of a body up to its first line feed is within the limit, and so is each part of
    it. -/
theorem SegmentsFit.length_le {limit : Nat} (hu : 0x0A ∉ u) (h : SegmentsFit limit (u ++ v)) :
    u.length ≤ limit := by
  cases hv : splitAtByte 0x0A v with
  | nil => exact absurd hv (splitAtByte_ne_nil _ v)
  | cons piece rest =>
    have hle := h (u ++ piece) (by rw [splitAtByte_append hu, hv]; exact List.mem_cons_self)
    rw [List.length_append] at hle
    omega

end Bytes

/-! ## 2. One look into the buffer -/

namespace LineReader

/-- Cutting off the carriage return by its position and by recursion is the same. -/
theorem chop_eq (line : Bytes) : chop line = Bytes.withoutReturn line := by
  induction line with
  | nil => rfl
  | cons b rest ih =>
    cases rest with
    | nil => by_cases hb : b = 0x0D <;> simp [chop, Bytes.withoutReturn, hb]
    | cons c rest =>
      rw [Bytes.withoutReturn, ← ih]
      simp only [chop, List.getLast?_cons_cons, List.dropLast_cons_cons]
      split <;> rfl

/-- The bytes that were read and not yet given out. -/
def pending (r : LineReader) : Bytes :=
  r.buffer.drop r.start

/-- **The invariant of the offsets**: they are in order and within the buffer, and what has been
    looked through of the current line holds no line feed. -/
structure Ready (r : LineReader) : Prop where
  start_le : r.start ≤ r.scanFrom
  scanFrom_le : r.scanFrom ≤ r.buffer.length
  scanned : 0x0A ∉ r.pending.take (r.scanFrom - r.start)

theorem ready_empty (limit : Nat) : Ready { limit := limit } where
  start_le := Nat.le_refl 0
  scanFrom_le := Nat.le_refl 0
  scanned := by simp [pending]

variable {r next : LineReader}

/-- What is pending is the part looked through, then the part a look goes through. -/
theorem Ready.pending_eq (hr : r.Ready) :
    r.pending = r.pending.take (r.scanFrom - r.start) ++ r.buffer.drop r.scanFrom := by
  have hdrop : r.buffer.drop r.scanFrom = r.pending.drop (r.scanFrom - r.start) := by
    rw [pending, List.drop_drop]
    congr 1
    have := hr.start_le
    omega
  rw [hdrop, List.take_append_drop]

theorem Ready.length_scanned (hr : r.Ready) :
    (r.pending.take (r.scanFrom - r.start)).length = r.scanFrom - r.start := by
  have h1 := hr.start_le
  have h2 := hr.scanFrom_le
  rw [List.length_take, pending, List.length_drop]
  omega

/-- The first line feed of a text splits it. -/
theorem split_of_findIdx? {s : Bytes} {i : Nat} (h : s.findIdx? (· == 0x0A) = some i) :
    0x0A ∉ s.take i ∧ s = s.take i ++ 0x0A :: s.drop (i + 1) ∧ i < s.length := by
  obtain ⟨hlt, hat, hbefore⟩ := List.findIdx?_eq_some_iff_getElem.mp h
  refine ⟨fun hmem => ?_, ?_, hlt⟩
  · obtain ⟨j, hj, e⟩ := List.mem_take_iff_getElem.mp hmem
    exact hbefore j (by omega) (beq_iff_eq.mpr e)
  · have e : s[i] = 0x0A := beq_iff_eq.mp hat
    rw [← e, ← List.drop_eq_getElem_cons hlt, List.take_append_drop]

/-- **A look that finds a line** takes a segment and its line feed off what is pending. -/
theorem scan_line {content : Bytes} (hr : r.Ready) (h : r.scan = .line content next) :
    next.Ready ∧ next.limit = r.limit ∧ next.failure = r.failure ∧
      ∃ segment, 0x0A ∉ segment ∧ r.pending = segment ++ 0x0A :: next.pending ∧
        content = Bytes.withoutReturn segment := by
  unfold scan at h
  split at h
  · rename_i i hi
    cases h
    obtain ⟨hno, hsplit, hlt⟩ := split_of_findIdx? hi
    rw [List.length_drop] at hlt
    have hle := hr.start_le
    have hlen := hr.length_scanned
    have hready : Ready { r with start := r.scanFrom + i + 1, scanFrom := r.scanFrom + i + 1 } :=
      ⟨Nat.le_refl _, (by show r.scanFrom + i + 1 ≤ r.buffer.length; omega), by simp⟩
    -- the segment is what was looked through before and what was looked through now
    refine ⟨hready, rfl, rfl,
      r.pending.take (r.scanFrom - r.start) ++ (r.buffer.drop r.scanFrom).take i, ?_, ?_, ?_⟩
    · rw [List.mem_append]
      exact fun hmem => hmem.elim hr.scanned hno
    · have hnext : pending { r with start := r.scanFrom + i + 1, scanFrom := r.scanFrom + i + 1 } =
          (r.buffer.drop r.scanFrom).drop (i + 1) := by
        rw [List.drop_drop]
        rfl
      rw [hnext, List.append_assoc, ← hsplit, ← hr.pending_eq]
    · have htake : r.pending.take (r.scanFrom + i - r.start) =
          r.pending.take (r.scanFrom - r.start) ++ (r.buffer.drop r.scanFrom).take i := by
        have e : r.scanFrom + i - r.start =
            (r.pending.take (r.scanFrom - r.start)).length + i := by omega
        conv => lhs; rw [hr.pending_eq, e, List.take_length_add_append]
      exact (congrArg chop htake).trans (chop_eq _)
  · dsimp only at h
    split at h <;> cases h

theorem newline_mem_of_scan_line {content : Bytes} (hr : r.Ready)
    (h : r.scan = .line content next) : 0x0A ∈ r.pending := by
  obtain ⟨-, -, -, segment, -, hpend, -⟩ := scan_line hr h
  rw [hpend]
  exact List.mem_append_right segment List.mem_cons_self

/-- Without a line feed in the part a look goes through there is none pending. -/
theorem Ready.notMem_pending (hr : r.Ready)
    (h : (r.buffer.drop r.scanFrom).findIdx? (· == 0x0A) = none) : 0x0A ∉ r.pending := by
  rw [hr.pending_eq, List.mem_append]
  intro hmem
  rcases hmem with hmem | hmem
  · exact hr.scanned hmem
  · have hne := List.findIdx?_eq_none_iff.mp h 0x0A hmem
    simp at hne

/-- **A look that finds nothing** leaves everything pending, and marks it as looked through. -/
theorem scan_hungry (hr : r.Ready) (h : r.scan = .hungry next) :
    next.Ready ∧ next.limit = r.limit ∧ next.failure = r.failure ∧ next.pending = r.pending ∧
      0x0A ∉ r.pending ∧ r.pending.length ≤ r.limit := by
  unfold scan at h
  split at h
  · cases h
  · rename_i hnone
    have hno := hr.notMem_pending hnone
    dsimp only at h
    split at h
    · cases h
    · rename_i hle
      cases h
      refine ⟨⟨?_, Nat.le_refl _, fun hmem => hno (List.mem_of_mem_take hmem)⟩, rfl, rfl, rfl, hno,
        ?_⟩
      · exact Nat.le_trans hr.start_le hr.scanFrom_le
      · rw [pending, List.length_drop]
        omega

/-- **A look that gives up** has a line before it that is longer than the limit. -/
theorem scan_overLimit (hr : r.Ready) (h : r.scan = .overLimit next) :
    0x0A ∉ r.pending ∧ r.limit < r.pending.length := by
  unfold scan at h
  split at h
  · cases h
  · rename_i hnone
    refine ⟨hr.notMem_pending hnone, ?_⟩
    dsimp only at h
    split at h
    · rename_i hlt
      rw [pending, List.length_drop]
      exact hlt
    · cases h

/-! ## 3. Reads -/

theorem pending_fill (r : LineReader) (b : UInt8) (bs : Bytes) :
    (r.fill (.bytes (b :: bs))).pending = r.pending ++ b :: bs := rfl

/-- A read that brings bytes keeps the invariant: it only adds behind what was looked through. -/
theorem Ready.fill (hr : r.Ready) (b : UInt8) (bs : Bytes) :
    (r.fill (.bytes (b :: bs))).Ready where
  start_le := Nat.zero_le _
  scanFrom_le := by
    show r.scanFrom - r.start ≤ (r.buffer.drop r.start ++ b :: bs).length
    have := hr.scanFrom_le
    rw [List.length_append, List.length_drop]
    omega
  scanned := by
    have hlen := hr.length_scanned
    rw [List.length_take] at hlen
    show 0x0A ∉ (r.pending ++ b :: bs).take (r.scanFrom - r.start - 0)
    rw [Nat.sub_zero, List.take_append_of_le_length (by omega)]
    exact hr.scanned

/-- **At the end** of its source a reader gives out what is pending as a last line. -/
theorem finish_fill_end (hr : r.failure = none) :
    (r.fill (.bytes [])).finish.1 =
      if r.pending = [] then .ok none else .ok (some (Bytes.withoutReturn r.pending)) := by
  simp only [fill, finish, hr]
  split
  · rename_i hlt
    rw [List.length_drop] at hlt
    rw [if_neg fun e => ?_, List.drop_zero, chop_eq]
    · rfl
    · have := congrArg List.length e
      rw [pending, List.length_drop, List.length_nil] at this
      omega
  · rename_i hge
    rw [List.length_drop] at hge
    have hnone : r.pending = [] := by
      rw [pending, List.drop_eq_nil_iff]
      omega
    rw [if_pos hnone]

/-- When its source fails a reader drops what is pending. -/
theorem finish_fill_failed (r : LineReader) (d : Disconnect) :
    (r.fill (.failed d)).finish.1 = .error d := rfl

end LineReader

end ChatRelay
