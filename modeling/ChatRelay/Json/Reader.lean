import ChatRelay.Json.Basic
import ChatRelay.Text.Utf8

/-!
# Reading JSON

A strict reader of RFC 8259. It skips a byte order mark at the very start, and refuses comments,
leading zeros, raw control characters in strings, lone surrogate escapes, ill-formed UTF-8 and
anything after the value. Of two fields with one key the later counts. A NUL byte outside strings
ends the text, so what stands behind one that follows the value does not matter (`isEnd`).

* A number without fraction and exponent that fits 64 bits is an integer; every other number is
  the nearest double, and one beyond the largest double is its own fault (`numberOutOfRange`).
* The strings are read by a machine over the bytes (`readChars`); the values by recursive descent,
  bounded by a fuel that `parse` computes from the length of the text.
-/

namespace ChatRelay.Json

/-- Why a text is not read. -/
inductive ReadFault where
  | malformed
  | numberOutOfRange
  deriving DecidableEq

/-! ## 1. Characters -/

/-- The value of a hexadecimal digit in either case. -/
def hexValue? (b : UInt8) : Option Nat :=
  if 0x30 ≤ b ∧ b ≤ 0x39 then some (b.toNat - 0x30)
  else if 0x41 ≤ b ∧ b ≤ 0x46 then some (b.toNat - 0x37)
  else if 0x61 ≤ b ∧ b ≤ 0x66 then some (b.toNat - 0x57)
  else none

/-- The text behind its blanks. -/
def skipBlanks (s : Bytes) : Bytes :=
  s.dropWhile Bytes.isBlank

/-- The text behind `word`, which it must begin with. -/
def expect (word s : Bytes) : Option Bytes :=
  if word.isPrefixOf s then some (s.drop word.length) else none

/-! ## 2. Strings -/

/-- What the next byte of a string is. -/
inductive CharMode where
  /-- A byte of the string, its closing quote, or a backslash. -/
  | plain
  /-- The letter behind a backslash. -/
  | escape
  /-- One of `left + 1` hexadecimal digits behind `value`; `high` is the first half of a surrogate
      pair. -/
  | digits (left value : Nat) (high : Option Nat)
  /-- The backslash that begins the second half of a surrogate pair. -/
  | lowSlash (high : Nat)
  /-- The letter `u` of the second half. -/
  | lowLetter (high : Nat)
  deriving DecidableEq

/-- The byte that a one-letter escape stands for. -/
def escapedByte? (b : UInt8) : Option UInt8 :=
  if b = 0x22 ∨ b = 0x5C ∨ b = 0x2F then some b
  else if b = Bytes.ascii 'b' then some 0x08
  else if b = Bytes.ascii 'f' then some 0x0C
  else if b = Bytes.ascii 'n' then some 0x0A
  else if b = Bytes.ascii 'r' then some 0x0D
  else if b = Bytes.ascii 't' then some 0x09
  else none

def isHighSurrogate (c : Nat) : Bool :=
  0xD800 ≤ c && c < 0xDC00

def isLowSurrogate (c : Nat) : Bool :=
  0xDC00 ≤ c && c < 0xE000

/-- What a four-digit escape of code `c` leads to: the bytes it adds and the next mode. -/
def afterEscape? (c : Nat) (high : Option Nat) : Option (Bytes × CharMode) :=
  match high with
  | none =>
    if isHighSurrogate c then some ([], .lowSlash c)
    else if isLowSurrogate c then none
    else some (Utf8.encode c, .plain)
  | some h =>
    if isLowSurrogate c then
      some (Utf8.encode (0x10000 + (h - 0xD800) * 0x400 + (c - 0xDC00)), .plain)
    else none

/-- Reads up to the closing quote. `done` holds the bytes so far in reverse. -/
def readChars : CharMode → Bytes → Bytes → Option (Bytes × Bytes)
  | _, _, [] => none
  | .plain, done, b :: s =>
    if b = 0x22 then some (done.reverse, s)
    else if b = 0x5C then readChars .escape done s
    else if b < 0x20 then none
    else readChars .plain (b :: done) s
  | .escape, done, b :: s =>
    if b = Bytes.ascii 'u' then readChars (.digits 3 0 none) done s
    else
      match escapedByte? b with
      | some e => readChars .plain (e :: done) s
      | none => none
  | .digits left value high, done, b :: s =>
    match hexValue? b with
    | none => none
    | some d =>
      match left with
      | left' + 1 => readChars (.digits left' (value * 16 + d) high) done s
      | 0 =>
        match afterEscape? (value * 16 + d) high with
        | some (bytes, mode) => readChars mode (bytes.reverse ++ done) s
        | none => none
  | .lowSlash high, done, b :: s =>
    if b = 0x5C then readChars (.lowLetter high) done s else none
  | .lowLetter high, done, b :: s =>
    if b = Bytes.ascii 'u' then readChars (.digits 3 0 (some high)) done s else none

/-- Reads a string behind its opening quote; the string must be UTF-8. -/
def readString (s : Bytes) : Except ReadFault (Bytes × Bytes) :=
  match readChars .plain [] s with
  | some (content, rest) =>
    if Utf8.valid content then .ok (content, rest) else .error .malformed
  | none => .error .malformed

/-! ## 3. Numbers -/

/-- The parts of a numeral. -/
structure Numeral where
  negative : Bool
  whole : Bytes
  /-- The digits behind the point. -/
  fraction : Option Bytes
  /-- The number behind the `e`. -/
  exponent : Option Int
  deriving DecidableEq

/-- The value of a numeral. -/
def Numeral.toJson (n : Numeral) : Except ReadFault Json :=
  let m := Bytes.natOfDigits (n.whole ++ n.fraction.getD [])
  let integral := n.fraction.isNone && n.exponent.isNone
  if integral && n.negative && m ≤ 0x8000000000000000 then .ok (.int (-(m : Int)))
  else if integral && !n.negative && m < 0x10000000000000000 then .ok (.int m)
  else
    match Binary64.ofDecimal n.negative m (n.exponent.getD 0 - (n.fraction.getD []).length) with
    | some x => .ok (.double x)
    | none => .error .numberOutOfRange

/-- At least one digit, and the text behind the digits. -/
def readDigits (s : Bytes) : Except ReadFault (Bytes × Bytes) :=
  match s.takeWhile Bytes.isDigit with
  | [] => .error .malformed
  | digits => .ok (digits, s.dropWhile Bytes.isDigit)

/-- The digits before the point: a single zero, or no leading zero. -/
def readWhole (s : Bytes) : Except ReadFault (Bytes × Bytes) := do
  let (digits, rest) ← readDigits s
  if 1 < digits.length ∧ digits.head? = some 0x30 then .error .malformed
  else .ok (digits, rest)

/-- The point and the digits behind it, if there is a point. -/
def readFraction (s : Bytes) : Except ReadFault (Option Bytes × Bytes) :=
  match expect [0x2E] s with
  | none => .ok (none, s)
  | some rest => do
    let (digits, rest) ← readDigits rest
    .ok (some digits, rest)

/-- The exponent, if there is one. -/
def readExponent (s : Bytes) : Except ReadFault (Option Int × Bytes) :=
  match (expect "e" s).or (expect "E" s) with
  | none => .ok (none, s)
  | some rest =>
    match expect "-" rest with
    | some rest => do
      let (digits, rest) ← readDigits rest
      .ok (some (-(Bytes.natOfDigits digits : Int)), rest)
    | none => do
      let (digits, rest) ← readDigits ((expect "+" rest).getD rest)
      .ok (some (Bytes.natOfDigits digits : Int), rest)

/-- Reads a number. -/
def readNumber (s : Bytes) : Except ReadFault (Json × Bytes) := do
  let (whole, rest) ← readWhole ((expect "-" s).getD s)
  let (fraction, rest) ← readFraction rest
  let (exponent, rest) ← readExponent rest
  let j ← Numeral.toJson ⟨(expect "-" s).isSome, whole, fraction, exponent⟩
  .ok (j, rest)

/-! ## 4. Values -/

/-- One of the three words. -/
def readWord (s : Bytes) : Option (Json × Bytes) :=
  ((expect "null" s).map (Json.null, ·)).or
    (((expect "true" s).map (Json.bool true, ·)).or
      ((expect "false" s).map (Json.bool false, ·)))

mutual

/-- Reads a value that begins with the first byte. -/
def readValue : Nat → Bytes → Except ReadFault (Json × Bytes)
  | 0, _ => .error .malformed
  | fuel + 1, s =>
    match readWord s with
    | some r => .ok r
    | none =>
      match s with
      | [] => .error .malformed
      | b :: rest =>
        if b = 0x22 then
          (readString rest).map fun r => (.str r.1, r.2)
        else if b = 0x5B then
          match expect [0x5D] (skipBlanks rest) with
          | some rest => .ok (.arr [], rest)
          | none => (readItems fuel (skipBlanks rest)).map fun r => (.arr r.1, r.2)
        else if b = 0x7B then
          match expect [0x7D] (skipBlanks rest) with
          | some rest => .ok (.obj [], rest)
          | none => (readFields fuel (skipBlanks rest)).map fun r => (object r.1, r.2)
        else readNumber s

/-- Reads the elements of an array, at least one, and its closing bracket. -/
def readItems : Nat → Bytes → Except ReadFault (List Json × Bytes)
  | 0, _ => .error .malformed
  | fuel + 1, s => do
    let (j, rest) ← readValue fuel s
    match expect [0x2C] (skipBlanks rest) with
    | some rest =>
      let (items, rest) ← readItems fuel (skipBlanks rest)
      .ok (j :: items, rest)
    | none =>
      match expect [0x5D] (skipBlanks rest) with
      | some rest => .ok ([j], rest)
      | none => .error .malformed

/-- Reads the fields of an object, at least one, and its closing brace. -/
def readFields : Nat → Bytes → Except ReadFault (List (Bytes × Json) × Bytes)
  | 0, _ => .error .malformed
  | fuel + 1, s =>
    match expect [0x22] s with
    | none => .error .malformed
    | some s => do
      let (key, rest) ← readString s
      match expect [0x3A] (skipBlanks rest) with
      | none => .error .malformed
      | some rest =>
        let (j, rest) ← readValue fuel (skipBlanks rest)
        match expect [0x2C] (skipBlanks rest) with
        | some rest =>
          let (fields, rest) ← readFields fuel (skipBlanks rest)
          .ok ((key, j) :: fields, rest)
        | none =>
          match expect [0x7D] (skipBlanks rest) with
          | some rest => .ok ([(key, j)], rest)
          | none => .error .malformed

end

/-- Whether nothing more is to be read: the text is used up, or a NUL byte ends it. -/
def isEnd (s : Bytes) : Bool :=
  s.head?.all (· == 0)

/-- The value that a text denotes. Each nesting level costs at most two units of fuel and one
    byte. -/
def parse (s : Bytes) : Except ReadFault Json := do
  let s := (expect [0xEF, 0xBB, 0xBF] s).getD s
  let (j, rest) ← readValue (2 * s.length + 2) (skipBlanks s)
  if isEnd (skipBlanks rest) then .ok j else .error .malformed

/-- The value that a text denotes, if it denotes one. -/
def parse? (s : Bytes) : Option Json :=
  (parse s).toOption

/-! ## 5. Bodies -/

/-- The value of a body; `context` names the body in the error. -/
def parseBody (body context : Bytes) : Except RelayError Json :=
  match parse body with
  | .ok j => .ok j
  | .error .malformed =>
    .error (.undecodable (Bytes.ofString "Failed to parse " ++ context) context)
  | .error .numberOutOfRange => .error .numberOutOfRange

/-- The value of a body that must be an object. -/
def parseObject (body context : Bytes) : Except RelayError Json := do
  let j ← parseBody body context
  if j.isObject then .ok j
  else .error (.undecodable (context ++ Bytes.ofString " is not a JSON object") context)

end ChatRelay.Json
