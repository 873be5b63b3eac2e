import ChatRelay.Stream.Body

/-!
# Reading lines

A line reader cuts what a source delivers into lines, without their `"\n"` or `"\r\n"`. It keeps the
bytes it has read in a buffer with two offsets: `start`, where the current line begins, and
`scanFrom`, before which no line feed is left to find. A last line without a line feed counts when
the source ends, and is dropped when the source fails.

* `scan` looks for the next line in the buffer, and gives up once the line is over the limit;
* `fill` takes what a read brings;
* `nextLine` scans and fills until there is a line, an end or a failure. Each fill makes the current
  line longer and the limit bounds it, so this ends for every source.
-/

namespace ChatRelay

structure LineReader where
  /-- A line that grows beyond this many bytes is refused. -/
  limit : Nat
  buffer : Bytes := []
  start : Nat := 0
  scanFrom : Nat := 0
  /-- Whether the source has nothing more to give. -/
  ended : Bool := false
  /-- A failure that has not been reported yet. -/
  failure : Option Disconnect := none

namespace LineReader

/-- A line without one closing carriage return. -/
def chop (line : Bytes) : Bytes :=
  if line.getLast? = some 0x0D then line.dropLast else line

/-- What a line over the limit is refused with. -/
def tooLong : Disconnect := ⟨"token too long", false⟩

/-! ## 1. One look into the buffer -/

/-- What a look into the buffer finds. -/
inductive Scan where
  /-- A line. -/
  | line (content : Bytes) (next : LineReader)
  /-- More of a line than the limit allows. -/
  | overLimit (next : LineReader)
  /-- The beginning of a line, or nothing. -/
  | hungry (next : LineReader)

/-- Looks for the next line feed. -/
def scan (r : LineReader) : Scan :=
  match (r.buffer.drop r.scanFrom).findIdx? (· == 0x0A) with
  | some i =>
    let newline := r.scanFrom + i
    .line (chop ((r.buffer.drop r.start).take (newline - r.start)))
      { r with start := newline + 1, scanFrom := newline + 1 }
  | none =>
    let next := { r with scanFrom := r.buffer.length }
    if r.limit < r.buffer.length - r.start then .overLimit next else .hungry next

/-- A line that is found leaves less to look through. -/
theorem scan_line_lt {r next : LineReader} {content : Bytes} (h : r.scan = .line content next) :
    next.buffer.length - next.scanFrom < r.buffer.length - r.scanFrom := by
  unfold scan at h
  split at h
  · rename_i i hi
    cases h
    have hlt : i < (r.buffer.drop r.scanFrom).length := (List.findIdx?_eq_some_iff_getElem.mp hi).1
    rw [List.length_drop] at hlt
    dsimp only
    omega
  · dsimp only at h
    split at h <;> cases h

/-- The reader with the bytes before `start` forgotten and a read taken in. -/
def fill (r : LineReader) (outcome : ReadOutcome) : LineReader :=
  let r := { r with buffer := r.buffer.drop r.start, scanFrom := r.scanFrom - r.start, start := 0 }
  match outcome with
  | .bytes [] => { r with ended := true }
  | .bytes b => { r with buffer := r.buffer ++ b }
  | .failed d => { r with ended := true, failure := some d }

/-- The reader with an empty buffer. -/
def reset (r : LineReader) : LineReader :=
  { r with buffer := [], start := 0, scanFrom := 0 }

/-- What a call brings: a line, the end, or a failure. -/
abbrev Outcome := Except Disconnect (Option Bytes)

/-- The answer when the source has nothing more: the failure, once; else what is left as a line;
    else the end. -/
def finish (r : LineReader) : Outcome × LineReader :=
  match r.failure with
  | some d => (.error d, { r.reset with failure := none })
  | none =>
    if r.start < r.buffer.length then (.ok (some (chop (r.buffer.drop r.start))), r.reset)
    else (.ok none, r)

/-! ## 2. Calls -/

/-- How much the current line may still grow before it is refused. -/
def slack (r : LineReader) : Nat :=
  r.limit + 1 - (r.buffer.length - r.start)

theorem slack_fill_lt {r next : LineReader} (h : r.scan = .hungry next) (x : UInt8) (xs : Bytes) :
    (next.fill (.bytes (x :: xs))).slack < r.slack := by
  unfold scan at h
  split at h
  · cases h
  · dsimp only at h
    split at h
    · cases h
    · cases h
      simp only [slack, fill, List.length_append, List.length_drop, List.length_cons]
      omega

/-- The next line of a source, with the reader and the source as they are afterwards. -/
def nextLine {σ : Type} [ByteSource σ] (r : LineReader) (source : σ) : Outcome × LineReader × σ :=
  match _h : r.scan with
  | .line content next => (.ok (some content), next, source)
  | .overLimit next => (.error tooLong, next, source)
  | .hungry next =>
    if next.ended then
      let (outcome, next) := next.finish
      (outcome, next, source)
    else
      match ByteSource.read source with
      | (.bytes (x :: xs), source) => nextLine (next.fill (.bytes (x :: xs))) source
      | (outcome, source) =>
        let (outcome, next) := (next.fill outcome).finish
        (outcome, next, source)
termination_by r.slack
decreasing_by exact slack_fill_lt _h x xs

end LineReader

end ChatRelay
