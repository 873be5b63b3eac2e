import ChatRelay.Text.Bytes

/-!
# Fresh identifiers

The ids that the relay gives to replies, messages and sessions. Each is made from a number; a number
that was not used before gives ids that were not used before.
-/

namespace ChatRelay.Identifier

/-- The id of a reply of the Responses dialect. -/
def reply (n : Nat) : Bytes :=
  Bytes.ofString "resp_" ++ Bytes.hex 32 n

/-- The id of a Claude message: a time in nanoseconds, to look at. -/
def message (n : Nat) : Bytes :=
  Bytes.ofString "msg_" ++ Bytes.ofNat (1000000000000000000 + n)

/-- A number in the grouping of a UUID. -/
def grouped (n : Nat) : Bytes :=
  let digits := Bytes.hex 32 n
  List.intercalate [0x2D]
    [digits.take 8, (digits.drop 8).take 4, (digits.drop 12).take 4, (digits.drop 16).take 4,
      digits.drop 20]

/-- The id of a session. -/
def session (n : Nat) : Bytes :=
  Bytes.ofString "sess_" ++ grouped n

end ChatRelay.Identifier
