import ChatRelay.Text.Bytes

/-!
# Well-formed UTF-8

A machine that takes one byte at a time. Between two characters it is in `start`; it refuses a byte
as soon as no well-formed text begins with the bytes so far, which excludes overlong forms,
surrogates and everything above U+10FFFF. `run_append` lets a text be checked in pieces, and with it
the pieces of well-formed texts add up to a well-formed text.
-/

namespace ChatRelay.Utf8

/-- What the next byte may be. -/
inductive State where
  /-- Between two characters. -/
  | start
  /-- `n + 1` continuation bytes are owed. -/
  | owed (n : Nat)
  /-- A byte from `low` to `high` is owed, then `n` continuation bytes. -/
  | bounded (low high : UInt8) (n : Nat)
  deriving DecidableEq

/-- The state that owes `n` continuation bytes. -/
def owing : Nat → State
  | 0 => .start
  | n + 1 => .owed n

/-- The state after the first byte of a character. -/
def first (b : UInt8) : Option State :=
  if b ≤ 0x7F then some .start
  else if b < 0xC2 then none
  else if b ≤ 0xDF then some (.owed 0)
  else if b = 0xE0 then some (.bounded 0xA0 0xBF 1)
  else if b = 0xED then some (.bounded 0x80 0x9F 1)
  else if b ≤ 0xEF then some (.owed 1)
  else if b = 0xF0 then some (.bounded 0x90 0xBF 2)
  else if b ≤ 0xF3 then some (.owed 2)
  else if b = 0xF4 then some (.bounded 0x80 0x8F 2)
  else none

/-- One byte; `none` where no well-formed text can go on. -/
def step : State → UInt8 → Option State
  | .start, b => first b
  | .owed n, b => if 0x80 ≤ b ∧ b ≤ 0xBF then some (owing n) else none
  | .bounded low high n, b => if low ≤ b ∧ b ≤ high then some (owing n) else none

/-- The state after all the bytes, or `none` when one is refused. -/
def run : State → Bytes → Option State
  | q, [] => some q
  | q, b :: s => (step q b).bind fun q' => run q' s

/-- Whether the bytes are well-formed UTF-8. -/
def valid (s : Bytes) : Bool :=
  run .start s == some .start

/-- Running over two parts is running over the first, then over the second. -/
theorem run_append (q : State) (s t : Bytes) :
    run q (s ++ t) = (run q s).bind fun q' => run q' t := by
  induction s generalizing q with
  | nil => rfl
  | cons b s ih =>
    simp only [List.cons_append, run]
    cases step q b <;> simp [ih]

/-- **Well-formed texts concatenate to a well-formed text.** -/
theorem valid_append {s t : Bytes} (hs : valid s = true) (ht : valid t = true) :
    valid (s ++ t) = true := by
  simp only [valid, beq_iff_eq] at hs ht ⊢
  rw [run_append, hs]
  exact ht

/-- The UTF-8 bytes of a code point. -/
def encode (c : Nat) : Bytes :=
  if c < 0x80 then [c.toUInt8]
  else if c < 0x800 then [(0xC0 + c / 0x40).toUInt8, (0x80 + c % 0x40).toUInt8]
  else if c < 0x10000 then
    [(0xE0 + c / 0x1000).toUInt8, (0x80 + c / 0x40 % 0x40).toUInt8, (0x80 + c % 0x40).toUInt8]
  else
    [(0xF0 + c / 0x40000).toUInt8, (0x80 + c / 0x1000 % 0x40).toUInt8,
      (0x80 + c / 0x40 % 0x40).toUInt8, (0x80 + c % 0x40).toUInt8]

end ChatRelay.Utf8
