/-!
# Byte strings

Everything the relay reads or writes -- bodies, header values, stream lines -- is a string of bytes
that is usually, but not always, UTF-8. This file fixes that type and the few operations the rest
of the library uses on it:

* `Bytes.ofString` reads a literal as its UTF-8 bytes, and is also the coercion;
* case folding and trimming know ASCII only (`lower`, `trim`);
* `contains` and `afterFirst?` look for the first occurrence of a text;
* `ofNat` and `ofInt` are the decimal numerals, and `natOfDigits` reads one.
-/

namespace ChatRelay

/-- A string of the wire: any bytes. Lengths and limits count bytes. -/
abbrev Bytes := List UInt8

namespace Bytes

/-! ## 1. Literals -/

/-- The UTF-8 bytes of a text. -/
def ofString (s : String) : Bytes :=
  s.toList.flatMap String.utf8EncodeChar

instance : Coe String Bytes := ⟨ofString⟩

/-- The byte of an ASCII character. -/
def ascii (c : Char) : UInt8 :=
  c.toNat.toUInt8

/-! ## 2. Case and blanks -/

/-- An ASCII capital becomes small; every other byte stays. -/
def lowerByte (b : UInt8) : UInt8 :=
  if 0x41 ≤ b ∧ b ≤ 0x5A then b + 0x20 else b

/-- ASCII case folding, byte by byte. -/
def lower (s : Bytes) : Bytes :=
  s.map lowerByte

@[simp] theorem length_lower (s : Bytes) : (lower s).length = s.length := by
  simp [lower]

/-- Space, tab, carriage return and line feed. -/
def isBlank (b : UInt8) : Bool :=
  b == 0x20 || b == 0x09 || b == 0x0D || b == 0x0A

/-- The text without the blanks at both ends. -/
def trim (s : Bytes) : Bytes :=
  ((s.dropWhile isBlank).reverse.dropWhile isBlank).reverse

/-! ## 3. Parts of a text -/

/-- Whether the text begins with `start`. -/
def startsWith (s start : Bytes) : Bool :=
  start.isPrefixOf s

/-- Whether `needle` occurs in the text; the empty needle occurs in every text. -/
def contains (s needle : Bytes) : Bool :=
  match s with
  | [] => needle.isEmpty
  | b :: rest => needle.isPrefixOf (b :: rest) || contains rest needle

/-- The text behind the first occurrence of `needle`. -/
def afterFirst? (needle s : Bytes) : Option Bytes :=
  match s with
  | [] => if needle.isEmpty then some [] else none
  | b :: rest =>
    if needle.isPrefixOf (b :: rest) then some ((b :: rest).drop needle.length)
    else afterFirst? needle rest

/-- The text cut at every occurrence of the byte `sep`; always at least one piece. -/
def splitAtByte (sep : UInt8) : Bytes → List Bytes
  | [] => [[]]
  | b :: s =>
    if b = sep then [] :: splitAtByte sep s
    else match splitAtByte sep s with
      | [] => [[b]]
      | piece :: rest => (b :: piece) :: rest

/-- The parts with a line feed between each two. -/
def joinLines (parts : List Bytes) : Bytes :=
  List.intercalate [0x0A] parts

/-- The text before the first `sep`, and the text after it; `none` without one. -/
def cut? (sep : UInt8) : Bytes → Option (Bytes × Bytes)
  | [] => none
  | b :: s =>
    if b = sep then some ([], s)
    else (cut? sep s).map fun p => (b :: p.1, p.2)

/-- The text after the last `sep`, or all of it without one. -/
def afterLast (sep : UInt8) (s : Bytes) : Bytes :=
  (s.reverse.takeWhile (· != sep)).reverse

/-- The text before its first NUL byte. -/
def beforeNul (s : Bytes) : Bytes :=
  s.takeWhile (· != 0)

/-! ## 4. Numerals -/

/-- The byte of a digit below ten. -/
def digit (n : Nat) : UInt8 :=
  (0x30 + n).toUInt8

/-- Whether the byte is a decimal digit. -/
def isDigit (b : UInt8) : Bool :=
  0x30 ≤ b && b ≤ 0x39

/-- The number that a run of digits denotes. -/
def natOfDigits (digits : Bytes) : Nat :=
  digits.foldl (fun n b => n * 10 + (b.toNat - 0x30)) 0

/-- The number that a text denotes as a whole; `none` unless there are digits and nothing else. -/
def numeral? (text : Bytes) : Option Nat :=
  if text.isEmpty || !text.all isDigit then none else some (natOfDigits text)

/-- The decimal numeral of a natural number. -/
def ofNat (n : Nat) : Bytes :=
  if n < 10 then [digit n] else ofNat (n / 10) ++ [digit (n % 10)]

/-- The decimal numeral of an integer. -/
def ofInt (n : Int) : Bytes :=
  if n < 0 then 0x2D :: ofNat n.natAbs else ofNat n.natAbs

/-- The byte of a small hexadecimal digit below sixteen. -/
def hexDigit (n : Nat) : UInt8 :=
  if n < 10 then digit n else (0x57 + n).toUInt8

/-- The last `width` hexadecimal digits of a number. -/
def hex : Nat → Nat → Bytes
  | 0, _ => []
  | width + 1, n => hex width (n / 16) ++ [hexDigit (n % 16)]

theorem length_hex (width n : Nat) : (hex width n).length = width := by
  induction width generalizing n with
  | zero => rfl
  | succ w ih => simp [hex, ih]

end Bytes

end ChatRelay
