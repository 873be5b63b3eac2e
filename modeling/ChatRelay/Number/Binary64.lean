/-!
# Double-precision numbers

A double is its 64 bits. This file reads the bits as an exact number `m * 2 ^ q`, rounds an exact
decimal `m * 10 ^ e` to the nearest double, and truncates a double to an integer, all in natural
number arithmetic.
-/

namespace ChatRelay

/-- A double-precision number, by its bits. -/
structure Binary64 where
  bits : UInt64
  deriving DecidableEq, Inhabited

namespace Binary64

/-- The weight of the sign bit, `2 ^ 63`. -/
def signWeight : Nat := 0x8000000000000000

/-- The weight of the lowest exponent bit, `2 ^ 52`; also the leading bit of a significand. -/
def exponentWeight : Nat := 0x10000000000000

/-- Whether the sign bit is set. -/
def negative (x : Binary64) : Bool :=
  signWeight ≤ x.bits.toNat

/-- The eleven exponent bits. -/
def biased (x : Binary64) : Nat :=
  x.bits.toNat / exponentWeight % 0x800

/-- The 52 fraction bits. -/
def fraction (x : Binary64) : Nat :=
  x.bits.toNat % exponentWeight

/-- The integer `m` of the magnitude `m * 2 ^ exponent`. -/
def significand (x : Binary64) : Nat :=
  if x.biased = 0 then x.fraction else x.fraction + exponentWeight

/-- The exponent `q` of the magnitude `significand * 2 ^ q`. -/
def exponent (x : Binary64) : Int :=
  if x.biased = 0 then -1074 else (x.biased : Int) - 1075

/-- The double of a sign and the other 63 bits. -/
def ofMagnitude (negative : Bool) (magnitude : Nat) : Binary64 :=
  ⟨((if negative then signWeight else 0) + magnitude).toUInt64⟩

/-! ## 1. Rounding -/

/-- The integer nearest to `num / den`; a half goes to the even neighbour. -/
def roundDiv (num den : Nat) : Nat :=
  let q := num / den
  let twice := 2 * (num % den)
  if twice < den then q else if den < twice then q + 1 else q + q % 2

/-- The exponent of the unit in which the positive quotient `num / den` has 53 bits before the
    point. The two logarithms leave two candidates. -/
def unitExponent (num den : Nat) : Int :=
  let guess : Int := (num.log2 : Int) - den.log2 - 52
  if num * Nat.pow 2 (-guess).toNat < den * Nat.pow 2 (52 + guess.toNat) then guess - 1 else guess

/-- The magnitude bits nearest to the positive quotient `num / den`. The rounded significand has 53
    bits, or fewer at the bottom of the range; a significand that rounds up to `2 ^ 53` carries into
    the exponent bits by itself. -/
def magnitudeOfRatio (num den : Nat) : Nat :=
  let q : Int := max (unitExponent num den) (-1074)
  (q + 1074).toNat * exponentWeight +
    roundDiv (num * Nat.pow 2 (-q).toNat) (den * Nat.pow 2 q.toNat)

/-- Number of decimal digits. -/
def digitCount (n : Nat) : Nat :=
  (Nat.toDigits 10 n).length

/-- The magnitude bits of infinity; those of every number are less. -/
def infinity : Nat := 0x7FF * exponentWeight

/-- The double nearest to `m * 10 ^ e`, or `none` when that is beyond the largest double. Exponents
    so large or small that the answer is certain are decided by the digit count alone. -/
def ofDecimal (negative : Bool) (m : Nat) (e : Int) : Option Binary64 :=
  if m = 0 then some (ofMagnitude negative 0)
  else if 310 < digitCount m + e then none
  else if digitCount m + e < -330 then some (ofMagnitude negative 0)
  else
    let magnitude := magnitudeOfRatio (m * Nat.pow 10 e.toNat) (Nat.pow 10 (-e).toNat)
    if magnitude < infinity then some (ofMagnitude negative magnitude) else none

/-- The double of an integer that any double range covers. -/
def ofInt (n : Int) : Binary64 :=
  (ofDecimal (n < 0) n.natAbs 0).getD (ofMagnitude (n < 0) infinity)

/-! ## 2. Truncation -/

/-- The integer part, towards zero. -/
def truncate (x : Binary64) : Int :=
  let magnitude : Nat := x.significand * Nat.pow 2 x.exponent.toNat / Nat.pow 2 (-x.exponent).toNat
  if x.negative then -(magnitude : Int) else magnitude

/-- The integer part as a 64-bit signed word; out of range it is the least word. -/
def toInt64 (x : Binary64) : Int :=
  if -0x8000000000000000 ≤ x.truncate ∧ x.truncate < 0x8000000000000000 then x.truncate
  else -0x8000000000000000

end Binary64

end ChatRelay
