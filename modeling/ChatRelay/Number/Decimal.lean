import ChatRelay.Number.Binary64
import ChatRelay.Text.Bytes

/-!
# Decimal form of a double

The digits of a double are those of a number between its two rounding boundaries, so that they read
back as the same double; they are few, though not always as few as possible, since all numbers are
kept to 64 bits.

* `Interval.of` -- a double between its boundaries, and `Scale` a power of ten, which brings their
  decimal point among the first digits;
* `Decimal.digitsOf` -- takes digits off the upper boundary, from the first one on, until what is
  left of it is no more than the interval is wide;
* `Decimal.lower` -- then lowers the last digit towards the double;
* `Binary64.render` -- lays the digits out: positionally while the decimal point stands within the
  first fifteen digits or at most four places before them, in scientific form otherwise.
-/

namespace ChatRelay

/-- The number `digits * 10 ^ exponent`. -/
structure Decimal where
  digits : Nat
  exponent : Int
  deriving DecidableEq

namespace Decimal

/-! ## 1. Boundaries -/

/-- A positive number between its two rounding boundaries, all in units of `2 ^ exponent`. -/
structure Interval where
  low : Nat
  value : Nat
  high : Nat
  exponent : Int

/-- The numbers that round to a positive double: half a unit to each side, only a quarter below a
    power of two. The upper boundary has 64 bits. -/
def Interval.of (x : Binary64) : Interval :=
  let m := 4 * x.significand
  let below := if x.fraction = 0 ∧ 1 < x.biased then 1 else 2
  let shift := 63 - (m + 2).log2
  { low := (m - below) * Nat.pow 2 shift
    value := m * Nat.pow 2 shift
    high := (m + 2) * Nat.pow 2 shift
    exponent := x.exponent - 2 - shift }

/-! ## 2. Powers of ten -/

/-- The number `significand * 2 ^ exponent`. -/
structure Scale where
  significand : Nat
  exponent : Int

/-- The number of 64 bits that is nearest to a power of ten; a double has eleven bits less. -/
def Scale.ofPower (k : Int) : Scale :=
  let num := Nat.pow 10 k.toNat
  let den := Nat.pow 10 (-k).toNat
  let q := Binary64.unitExponent num den - 11
  ⟨Binary64.roundDiv (num * Nat.pow 2 (-q).toNat) (den * Nat.pow 2 q.toNat), q⟩

/-- The power of ten for numbers of 64 bits in units of `2 ^ e`: one of -300, -292, ..., 324, which
    leaves them from 32 to 60 bits behind the point. The fraction is the logarithm of 2. -/
def powerFor (e : Int) : Int :=
  (307 - (61 + e) * 78913 / 0x40000) / 8 * 8 - 300

/-- The high 64 bits of a product of two numbers of 64 bits, rounded. -/
def Scale.times (c : Scale) (n : Nat) : Nat :=
  (n * c.significand + 0x8000000000000000) / 0x10000000000000000

/-! ## 3. Digits -/

/-- **Lowers the last digit** while that brings the digits nearer to the value and leaves them in
    the interval. Counted from its upper end down, they stand at `rest`, the value at `distance` and
    the lower end at `width`; a unit of the last digit is a `step`. -/
def lower (distance width step : Nat) : Nat → Nat → Nat
  | 0, _ => 0
  | digits + 1, rest =>
    if rest < distance ∧ step ≤ width - rest ∧
        (rest + step < distance ∨ rest + step - distance < distance - rest) then
      lower distance width step digits (rest + step)
    else digits + 1

/-- The digits behind the point. With `bits + 1` bits behind it, ten times the rest is five times
    the rest with `bits` of them, so nothing is left when they are used up. -/
def digitsBehind (digits rest distance width : Nat) (exponent : Int) : Nat → Decimal
  | 0 => ⟨digits, exponent⟩
  | bits + 1 =>
    let unit := Nat.pow 2 bits
    let digits := digits * 10 + rest * 5 / unit
    let rest := rest * 5 % unit
    if rest ≤ width * 5 then
      ⟨lower (distance * 5) (width * 5) unit digits rest, exponent - 1⟩
    else digitsBehind digits rest (distance * 5) (width * 5) (exponent - 1) bits

/-- The digits of the upper end of an interval, with these bits behind the point; at first those
    before the point, of which so many places are left. -/
def digitsOf (upper distance width bits : Nat) : Nat → Decimal
  | 0 =>
    let unit := Nat.pow 2 bits
    digitsBehind (upper / unit) (upper % unit) distance width 0 bits
  | place + 1 =>
    let step := Nat.pow 10 place * Nat.pow 2 bits
    if upper % step ≤ width then
      ⟨lower distance width step (upper / step) (upper % step), place⟩
    else digitsOf upper distance width bits place

/-- The digits of a number between its boundaries. Each product is off by less than one, so the ends
    of the scaled interval are moved inwards by one. -/
def Interval.digits (i : Interval) : Decimal :=
  let k := powerFor i.exponent
  let c := Scale.ofPower k
  let upper := c.times i.high - 1
  let width := upper - (c.times i.low + 1)
  let bits := (-(i.exponent + c.exponent + 64)).toNat
  let places := Binary64.digitCount (upper / Nat.pow 2 bits)
  let d := digitsOf upper (upper - c.times i.value) width bits places
  ⟨d.digits, d.exponent - k⟩

/-- **The digits of a positive double.** -/
def ofDouble (x : Binary64) : Decimal :=
  (Interval.of x).digits

end Decimal

/-! ## 4. Layout -/

namespace Binary64

/-- Exponents have a sign and at least two digits. -/
def renderExponent (e : Int) : Bytes :=
  let digits := Bytes.ofNat e.natAbs
  (if e < 0 then [0x2D] else [0x2B]) ++
    (if digits.length < 2 then 0x30 :: digits else digits)

/-- Digits with the decimal point at place `point`, counted from the first digit. -/
def layOut (digits : Bytes) (point : Int) : Bytes :=
  let count : Int := digits.length
  if count ≤ point ∧ point ≤ 15 then
    digits ++ List.replicate (point - count).toNat 0x30 ++ [0x2E, 0x30]
  else if 0 < point ∧ point ≤ 15 then
    digits.take point.toNat ++ 0x2E :: digits.drop point.toNat
  else if -4 < point ∧ point ≤ 0 then
    [0x30, 0x2E] ++ List.replicate (-point).toNat 0x30 ++ digits
  else
    match digits with
    | [] => []
    | d :: rest =>
      (if rest.isEmpty then [d] else d :: 0x2E :: rest) ++ 0x65 :: renderExponent (point - 1)

/-- The text of a double. -/
def render (x : Binary64) : Bytes :=
  let sign : Bytes := if x.negative then [0x2D] else []
  if x.significand = 0 then sign ++ [0x30, 0x2E, 0x30]
  else
    let d := Decimal.ofDouble x
    let digits := Bytes.ofNat d.digits
    sign ++ layOut digits (digits.length + d.exponent)

end Binary64

end ChatRelay
