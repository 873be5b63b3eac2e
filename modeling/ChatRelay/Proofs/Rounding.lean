import ChatRelay.Number.Binary64
import Mathlib.Algebra.Order.Field.Power
import Mathlib.Data.Rat.Cast.Order
import Mathlib.Tactic.FieldSimp
import Mathlib.Tactic.Linarith
import Mathlib.Tactic.NormNum
import Mathlib.Tactic.Positivity
import Mathlib.Tactic.Ring

/-!
# Rounding to doubles

`Binary64.ofDecimal` computes the nearest double in natural numbers: it chooses the unit in which
the number has 53 bits and rounds to an integer of these units. Here this is compared with the
rational number that is meant.

* `Between` -- an interval whose ends may be included;
* `Binary64.Covers` -- the numbers that round to a positive double: half a unit to each side, but
  only a quarter below a power of two, where the doubles lie closer;
* `magnitudeOfRatio_eq_of_covers`, `ofDecimal_of_covers` -- these numbers are indeed read as this
  double.
-/

namespace ChatRelay.Binary64

/-! ## 1. Nearest integers -/

/-- The number lies between two bounds, and on one of them only when they are included. -/
structure Between (included : Prop) (low high v : ℚ) : Prop where
  low_le : low ≤ v
  le_high : v ≤ high
  inside : ¬ included → low < v ∧ v < high

theorem Between.mono {included : Prop} {low low' high high' v : ℚ}
    (h : Between included low high v) (hlow : low' ≤ low) (hhigh : high ≤ high') :
    Between included low' high' v where
  low_le := hlow.trans h.low_le
  le_high := h.le_high.trans hhigh
  inside hopen := ⟨hlow.trans_lt (h.inside hopen).1, (h.inside hopen).2.trans_le hhigh⟩

/-- The same in another unit. -/
theorem between_mul_iff {included : Prop} {low high v unit : ℚ} (hunit : 0 < unit) :
    Between included (low * unit) (high * unit) v ↔ Between included low high (v / unit) := by
  constructor
  · intro h
    refine ⟨(le_div_iff₀ hunit).mpr h.low_le, (div_le_iff₀ hunit).mpr h.le_high, fun hopen => ?_⟩
    exact ⟨(lt_div_iff₀ hunit).mpr (h.inside hopen).1, (div_lt_iff₀ hunit).mpr (h.inside hopen).2⟩
  · intro h
    refine ⟨(le_div_iff₀ hunit).mp h.low_le, (div_le_iff₀ hunit).mp h.le_high, fun hopen => ?_⟩
    exact ⟨(lt_div_iff₀ hunit).mp (h.inside hopen).1, (div_lt_iff₀ hunit).mp (h.inside hopen).2⟩

/-- A quotient within half a unit of an integer, with the bounds in natural numbers. -/
theorem Between.of_quotient {included : Prop} {num den r : Nat} (hden : 0 < den)
    (h : Between included (r - 1 / 2) (r + 1 / 2) (num / den)) :
    2 * (r * den) ≤ 2 * num + den ∧ 2 * num ≤ 2 * (r * den) + den ∧
      (¬ included → 2 * (r * den) < 2 * num + den ∧ 2 * num < 2 * (r * den) + den) := by
  have hden' : (0 : ℚ) < den := by exact_mod_cast hden
  refine ⟨?_, ?_, fun hopen => ?_⟩
  · have hle := (le_div_iff₀ hden').mp h.low_le
    have hcast : (2 * (r * den) : ℚ) ≤ 2 * num + den := by linarith
    exact_mod_cast hcast
  · have hle := (div_le_iff₀ hden').mp h.le_high
    have hcast : (2 * num : ℚ) ≤ 2 * (r * den) + den := by linarith
    exact_mod_cast hcast
  · obtain ⟨hlt, hlt'⟩ := h.inside hopen
    have hmul := (lt_div_iff₀ hden').mp hlt
    have hmul' := (div_lt_iff₀ hden').mp hlt'
    have hcast : (2 * (r * den) : ℚ) < 2 * num + den := by linarith
    have hcast' : (2 * num : ℚ) < 2 * (r * den) + den := by linarith
    exact ⟨by exact_mod_cast hcast, by exact_mod_cast hcast'⟩

/-- **Rounding finds the integer within half a unit**; a half goes to an even one. -/
theorem roundDiv_eq {num den r : Nat} (hden : 0 < den)
    (h : Between (r % 2 = 0) (r - 1 / 2) (r + 1 / 2) (num / den)) : roundDiv num den = r := by
  obtain ⟨hlow, hhigh, hinside⟩ := h.of_quotient hden
  have hsplit : den * (num / den) + num % den = num := Nat.div_add_mod num den
  have hrest : num % den < den := Nat.mod_lt num hden
  unfold roundDiv
  dsimp only
  generalize num / den = q at hsplit ⊢
  generalize num % den = m at hsplit hrest ⊢
  -- the integer is one of the two neighbours
  have hle : r ≤ q + 1 := by
    by_contra hlarge
    have hmul : (q + 2) * den ≤ r * den := Nat.mul_le_mul_right den (by omega)
    rw [Nat.add_mul, Nat.mul_comm q den] at hmul
    omega
  have hge : q ≤ r := by
    by_contra hsmall
    have hmul : (r + 1) * den ≤ q * den := Nat.mul_le_mul_right den (by omega)
    rw [Nat.add_mul, Nat.mul_comm q den] at hmul
    omega
  rcases Nat.lt_or_eq_of_le hge with hlt | rfl
  · obtain rfl : r = q + 1 := by omega
    rw [Nat.add_mul, Nat.mul_comm q den] at hlow hhigh hinside
    split_ifs <;> omega
  · rw [Nat.mul_comm q den] at hlow hhigh hinside
    split_ifs <;> omega

/-- What is rounded is off by half a unit at most. -/
theorem roundDiv_near {num den : Nat} (hden : 0 < den) :
    |(roundDiv num den : ℚ) - num / den| ≤ 1 / 2 := by
  have hden' : (0 : ℚ) < den := by exact_mod_cast hden
  have hbounds : 2 * (roundDiv num den * den) ≤ 2 * num + den ∧
      2 * num ≤ 2 * (roundDiv num den * den) + den := by
    have hsplit : num / den * den + num % den = num := Nat.div_add_mod' num den
    have hrest : num % den < den := Nat.mod_lt num hden
    unfold roundDiv
    dsimp only
    generalize num / den = q at hsplit ⊢
    generalize num % den = m at hsplit hrest ⊢
    split_ifs
    · omega
    · rw [Nat.add_mul]
      omega
    · rcases Nat.mod_two_eq_zero_or_one q with heven | hodd
      · rw [heven, Nat.add_zero]
        omega
      · rw [hodd, Nat.add_mul]
        omega
  have hlow : (2 * (roundDiv num den * den) : ℚ) ≤ 2 * num + den := by exact_mod_cast hbounds.1
  have hhigh : (2 * num : ℚ) ≤ 2 * (roundDiv num den * den) + den := by exact_mod_cast hbounds.2
  have hquotient : (num / den * den : ℚ) = num := div_mul_cancel₀ _ hden'.ne'
  rw [abs_le]
  constructor
  · refine le_of_mul_le_mul_right ?_ hden'
    linarith
  · refine le_of_mul_le_mul_right ?_ hden'
    linarith

/-! ## 2. The leading bit -/

/-- A power with an integer exponent as the quotient of the two powers that the code computes. -/
theorem zpow_eq_div {b : ℚ} (hb : b ≠ 0) (q : ℤ) : b ^ q = b ^ q.toNat / b ^ (-q).toNat := by
  rw [← zpow_natCast, ← zpow_natCast, ← zpow_sub₀ hb, Int.toNat_sub_toNat_neg]

theorem natPow_div_natPow {b : Nat} (hb : b ≠ 0) (q : ℤ) :
    ((Nat.pow b q.toNat : ℕ) : ℚ) / (Nat.pow b (-q).toNat : ℕ) = (b : ℚ) ^ q := by
  rw [zpow_eq_div (by exact_mod_cast hb)]
  simp only [Nat.pow_eq, Nat.cast_pow]

/-- The quotient in units of `2 ^ q`. -/
theorem ratio_scaled (num den : Nat) (q : ℤ) :
    ((num * Nat.pow 2 (-q).toNat : ℕ) : ℚ) / (den * Nat.pow 2 q.toNat : ℕ) =
      num / den / 2 ^ q := by
  have hpow := natPow_div_natPow two_ne_zero q
  rw [Nat.cast_ofNat] at hpow
  rw [← hpow, Nat.cast_mul, Nat.cast_mul, div_div_div_eq]

variable {num den : Nat}

theorem two_zpow_log2_le {n : Nat} (hn : 0 < n) : (2 : ℚ) ^ (n.log2 : ℤ) ≤ n := by
  rw [zpow_natCast]
  exact_mod_cast Nat.log2_self_le hn.ne'

theorem lt_two_zpow_log2 (n : Nat) : (n : ℚ) < 2 ^ (n.log2 + 1 : ℤ) := by
  exact_mod_cast Nat.lt_log2_self

/-- The two logarithms leave two candidates for the leading bit of the quotient. -/
theorem ratio_bounds (hnum : 0 < num) (hden : 0 < den) :
    (2 : ℚ) ^ ((num.log2 : ℤ) - den.log2 - 1) < num / den ∧
      (num / den : ℚ) < 2 ^ ((num.log2 : ℤ) - den.log2 + 1) := by
  have hden' : (0 : ℚ) < den := by exact_mod_cast hden
  have hdenLow := two_zpow_log2_le hden
  have hdenHigh := lt_two_zpow_log2 den
  constructor
  · rw [lt_div_iff₀ hden']
    calc (2 : ℚ) ^ ((num.log2 : ℤ) - den.log2 - 1) * den
        < 2 ^ ((num.log2 : ℤ) - den.log2 - 1) * 2 ^ (den.log2 + 1 : ℤ) := by gcongr
      _ = 2 ^ (num.log2 : ℤ) := by rw [← zpow_add₀ two_ne_zero]; congr 1; ring
      _ ≤ num := two_zpow_log2_le hnum
  · rw [div_lt_iff₀ hden']
    calc (num : ℚ) < 2 ^ (num.log2 + 1 : ℤ) := lt_two_zpow_log2 num
      _ = 2 ^ ((num.log2 : ℤ) - den.log2 + 1) * 2 ^ (den.log2 : ℤ) := by
        rw [← zpow_add₀ two_ne_zero]; congr 1; ring
      _ ≤ 2 ^ ((num.log2 : ℤ) - den.log2 + 1) * den := by gcongr

/-- The test of the guessed exponent is a comparison of the quotient. -/
theorem guess_large_iff (hden : 0 < den) (guess : ℤ) :
    num * Nat.pow 2 (-guess).toNat < den * Nat.pow 2 (52 + guess.toNat) ↔
      (num / den : ℚ) < 2 ^ (52 + guess) := by
  have hden' : (0 : ℚ) < den := by exact_mod_cast hden
  rw [zpow_add₀ two_ne_zero, zpow_eq_div (by norm_num) guess, ← mul_div_assoc,
    div_lt_div_iff₀ hden' (by positivity)]
  have hcast : (2 : ℚ) ^ (52 : ℤ) * 2 ^ guess.toNat * den =
      (den * Nat.pow 2 (52 + guess.toNat) : ℕ) := by
    rw [Nat.pow_eq, Nat.pow_add]
    push_cast
    ring
  rw [hcast, Nat.pow_eq]
  exact_mod_cast Iff.rfl

/-- In this unit the quotient has 53 bits. -/
theorem unitExponent_spec (hnum : 0 < num) (hden : 0 < den) :
    (2 : ℚ) ^ (52 + unitExponent num den) ≤ num / den ∧
      (num / den : ℚ) < 2 ^ (53 + unitExponent num den) := by
  obtain ⟨hlow, hhigh⟩ := ratio_bounds hnum hden
  unfold unitExponent
  dsimp only
  generalize hguess : (num.log2 : ℤ) - den.log2 - 52 = guess
  have hfirst : (num.log2 : ℤ) - den.log2 - 1 = 52 + (guess - 1) := by omega
  have hlast : (num.log2 : ℤ) - den.log2 + 1 = 53 + guess := by omega
  rw [hfirst] at hlow
  rw [hlast] at hhigh
  split_ifs with h
  · rw [guess_large_iff hden] at h
    refine ⟨hlow.le, ?_⟩
    rwa [show (53 : ℤ) + (guess - 1) = 52 + guess by ring]
  · rw [guess_large_iff hden, not_lt] at h
    exact ⟨h, hhigh⟩

/-- Only one unit gives 53 bits. -/
theorem unitExponent_eq (hnum : 0 < num) (hden : 0 < den) {e : ℤ}
    (hlow : (2 : ℚ) ^ (52 + e) ≤ num / den) (hhigh : (num / den : ℚ) < 2 ^ (53 + e)) :
    unitExponent num den = e := by
  obtain ⟨hlow', hhigh'⟩ := unitExponent_spec hnum hden
  have hle := (zpow_lt_zpow_iff_right₀ one_lt_two).mp (hlow.trans_lt hhigh')
  have hge := (zpow_lt_zpow_iff_right₀ one_lt_two).mp (hlow'.trans_lt hhigh)
  omega

theorem unitExponent_lt (hnum : 0 < num) (hden : 0 < den) {e : ℤ}
    (hhigh : (num / den : ℚ) < 2 ^ (52 + e)) : unitExponent num den < e := by
  have hlow := (unitExponent_spec hnum hden).1
  have hlt := (zpow_lt_zpow_iff_right₀ one_lt_two).mp (hlow.trans_lt hhigh)
  omega

/-! ## 3. Doubles -/

variable (x : Binary64)

/-- The bits without the sign. -/
def magnitude : Nat :=
  x.bits.toNat % signWeight

/-- The distance between a double and the next one up. -/
def unit : ℚ :=
  2 ^ x.exponent

/-- How far down the numbers go that round to a double, in its units: half a unit, but only a
    quarter below a power of two. -/
def below : ℚ :=
  if x.fraction = 0 ∧ 1 < x.biased then 1 / 4 else 1 / 2

/-- **The numbers that round to a positive double**; the boundaries count when its significand is
    even. -/
def Covers (v : ℚ) : Prop :=
  Between (x.significand % 2 = 0) ((x.significand - x.below) * x.unit)
    ((x.significand + 1 / 2) * x.unit) v

theorem unit_pos : 0 < x.unit :=
  zpow_pos (by norm_num) _

theorem below_le : x.below ≤ 1 / 2 := by
  unfold below
  split_ifs <;> norm_num

theorem fraction_lt : x.fraction < exponentWeight :=
  Nat.mod_lt _ (by decide)

/-- The two ranges of doubles: at the bottom of the scale, or with 53 bits. -/
theorem cases_biased :
    (x.biased = 0 ∧ x.exponent = -1074 ∧ x.significand = x.fraction) ∨
      (0 < x.biased ∧ x.exponent = (x.biased : Int) - 1075 ∧
        x.significand = x.fraction + exponentWeight) := by
  unfold exponent significand
  by_cases h : x.biased = 0
  · exact .inl ⟨h, if_pos h, if_pos h⟩
  · exact .inr ⟨Nat.pos_of_ne_zero h, if_neg h, if_neg h⟩

theorem significand_lt : x.significand < 2 * exponentWeight := by
  have hfraction := x.fraction_lt
  rcases x.cases_biased with ⟨-, -, hs⟩ | ⟨-, -, hs⟩ <;> omega

theorem magnitude_eq_biased : x.magnitude = x.biased * exponentWeight + x.fraction := by
  unfold magnitude biased fraction signWeight exponentWeight
  omega

theorem magnitude_of_significand {x : Binary64} (hs : x.significand = 0) : x.magnitude = 0 := by
  rw [x.magnitude_eq_biased]
  rcases x.cases_biased with ⟨hb, -, hs'⟩ | ⟨-, -, hs'⟩
  · rw [hb]
    omega
  · unfold exponentWeight at hs'
    omega

/-- The magnitude from its exponent and significand. -/
theorem magnitude_eq :
    x.magnitude = (x.exponent + 1074).toNat * exponentWeight + x.significand := by
  have hbits := x.magnitude_eq_biased
  rcases x.cases_biased with ⟨hb, he, hs⟩ | ⟨hb, he, hs⟩
  · have hexp : (x.exponent + 1074).toNat = 0 := by omega
    rw [hbits, hb, hexp, hs]
  · have hexp : (x.exponent + 1074).toNat = x.biased - 1 := by omega
    rw [hbits, hexp, hs, Nat.sub_mul]
    have hone : 1 * exponentWeight ≤ x.biased * exponentWeight := Nat.mul_le_mul_right _ hb
    omega

variable {x}

theorem magnitudeOfRatio_of_between {q : ℤ} {r : Nat} (hden : 0 < den)
    (hq : max (unitExponent num den) (-1074) = q)
    (h : Between (r % 2 = 0) (r - 1 / 2) (r + 1 / 2) (num / den / 2 ^ q)) :
    magnitudeOfRatio num den = (q + 1074).toNat * exponentWeight + r := by
  rw [magnitudeOfRatio, hq]
  congr 1
  refine roundDiv_eq ?_ ?_
  · exact Nat.mul_pos hden (Nat.pow_pos (by decide))
  · rwa [ratio_scaled]

/-- What lies strictly between the boundaries is covered in any case. -/
theorem covers_of_lt {v : ℚ} (hlow : (x.significand - x.below) * x.unit < v)
    (hhigh : v < (x.significand + 1 / 2) * x.unit) : x.Covers v :=
  ⟨hlow.le, hhigh.le, fun _ => ⟨hlow, hhigh⟩⟩

theorem lt_two_zpow_iff {v : ℚ} (k : ℕ) :
    v < 2 ^ (k + x.exponent) ↔ v / x.unit < 2 ^ k := by
  rw [div_lt_iff₀ x.unit_pos, zpow_add₀ two_ne_zero, zpow_natCast]
  exact Iff.rfl

theorem le_exponent (x : Binary64) : -1074 ≤ x.exponent := by
  rcases x.cases_biased with ⟨-, he, -⟩ | ⟨hb, he, -⟩ <;> omega

/-- What a double covers has no leading bit above its own. -/
theorem Covers.lt_two_zpow {v : ℚ} (h : x.Covers v) : v < 2 ^ (53 + x.exponent) := by
  have hscaled := ((between_mul_iff x.unit_pos).mp h).le_high
  have hsig : (x.significand : ℚ) + 1 ≤ 2 ^ 53 := by
    have hlt := x.significand_lt
    exact_mod_cast hlt
  refine (lt_two_zpow_iff 53).mpr ?_
  linarith

/-- Only a power of two covers numbers with a smaller leading bit, and not the least of them. -/
theorem power_of_covers {v : ℚ} (h : x.Covers v) (hlt : v / x.unit < 2 ^ 52)
    (hne : x.exponent ≠ -1074) :
    x.significand = 2 ^ 52 ∧ 2 ^ 52 - 1 / 4 ≤ v / x.unit := by
  have hlow := ((between_mul_iff x.unit_pos).mp h).low_le
  rcases x.cases_biased with ⟨-, he, -⟩ | ⟨hb, he, hs⟩
  · exact absurd he hne
  · have hsig : (x.significand : ℚ) < 2 ^ 52 + 1 := by
      linarith [x.below_le]
    have hsig' : x.significand < 2 ^ 52 + 1 := by exact_mod_cast hsig
    unfold exponentWeight at hs
    have hpower : x.significand = 2 ^ 52 := by omega
    have hquarter : x.below = 1 / 4 := if_pos ⟨by omega, by omega⟩
    rw [hpower, hquarter] at hlow
    refine ⟨hpower, ?_⟩
    push_cast at hlow
    exact hlow

/-- A covered number with a smaller leading bit is rounded up to the power of two, in units of half
    the size. -/
theorem magnitudeOfRatio_of_power (hnum : 0 < num) (hden : 0 < den)
    (hcovers : x.Covers (num / den)) (hlt : (num / den : ℚ) < 2 ^ (52 + x.exponent))
    (hne : x.exponent ≠ -1074) : magnitudeOfRatio num den = x.magnitude := by
  have hexp := x.le_exponent
  have hv : (num / den / x.unit : ℚ) < 2 ^ 52 := (lt_two_zpow_iff 52).mp hlt
  obtain ⟨hs, hlow⟩ := power_of_covers hcovers hv hne
  have hdouble : (num / den / 2 ^ (x.exponent - 1) : ℚ) = 2 * (num / den / x.unit) := by
    rw [unit, zpow_sub_one₀ (by norm_num)]
    field_simp
  have hq : max (unitExponent num den) (-1074) = x.exponent - 1 := by
    rw [unitExponent_eq (e := x.exponent - 1) hnum hden]
    · omega
    · rw [zpow_add₀ two_ne_zero, ← le_div_iff₀ (by positivity), hdouble]
      norm_num at hlow ⊢
      linarith
    · rwa [show (53 : ℤ) + (x.exponent - 1) = 52 + x.exponent by ring]
  rw [magnitudeOfRatio_of_between (r := 2 ^ 53) hden hq, magnitude_eq, hs]
  · unfold exponentWeight
    omega
  · rw [hdouble]
    refine ⟨?_, ?_, fun hodd => absurd (by decide) hodd⟩
    · norm_num at hlow ⊢
      linarith
    · norm_num at hv ⊢
      linarith

/-- **What a double covers rounds to it.** -/
theorem magnitudeOfRatio_eq_of_covers (hnum : 0 < num) (hden : 0 < den)
    (hcovers : x.Covers (num / den)) : magnitudeOfRatio num den = x.magnitude := by
  have hscaled := (between_mul_iff x.unit_pos).mp hcovers
  by_cases hsame : max (unitExponent num den) (-1074) = x.exponent
  · rw [magnitude_eq]
    refine magnitudeOfRatio_of_between hden hsame (hscaled.mono ?_ le_rfl)
    linarith [x.below_le]
  · have hexp := x.le_exponent
    have hhigh := hcovers.lt_two_zpow
    have hlt : (num / den : ℚ) < 2 ^ (52 + x.exponent) := by
      by_contra hle
      rw [unitExponent_eq hnum hden (not_lt.mp hle) hhigh] at hsame
      omega
    have hless := unitExponent_lt hnum hden hlt
    exact magnitudeOfRatio_of_power hnum hden hcovers hlt (by omega)

/-! ## 4. Decimals -/

theorem digitCount_pos (n : Nat) : 0 < digitCount n :=
  Nat.length_toDigits_pos

theorem lt_ten_pow_digitCount (n : Nat) : n < 10 ^ digitCount n :=
  (Nat.length_toDigits_le_iff (by decide) (digitCount_pos n)).mp le_rfl

theorem ten_pow_le_of_pos {n : Nat} (hn : 0 < n) : 10 ^ (digitCount n - 1) ≤ n := by
  by_contra hlt
  rcases Nat.eq_zero_or_pos (digitCount n - 1) with hzero | hpos
  · rw [hzero] at hlt
    omega
  · have hle := (Nat.length_toDigits_le_iff (by decide) hpos).mpr (not_le.mp hlt)
    have hcount := digitCount_pos n
    unfold digitCount at hle hcount
    omega

/-- The decimal between the two powers of ten that its digit count tells. -/
theorem decimal_bounds {m : Nat} (hm : 0 < m) (e : ℤ) :
    (10 : ℚ) ^ (digitCount m + e - 1) ≤ m * 10 ^ e ∧
      (m * 10 ^ e : ℚ) < 10 ^ (digitCount m + e) := by
  have hlow : (10 : ℚ) ^ (digitCount m - 1 : ℤ) ≤ m := by
    have hle := ten_pow_le_of_pos hm
    have hcount : ((digitCount m - 1 : ℕ) : ℤ) = digitCount m - 1 := by
      have hpos := digitCount_pos m
      omega
    rw [← hcount, zpow_natCast]
    exact_mod_cast hle
  have hhigh : (m : ℚ) < 10 ^ (digitCount m : ℤ) := by
    rw [zpow_natCast]
    exact_mod_cast lt_ten_pow_digitCount m
  have hpos : (0 : ℚ) < 10 ^ e := by positivity
  constructor
  · rw [show (digitCount m : ℤ) + e - 1 = (digitCount m - 1) + e by ring,
      zpow_add₀ (by norm_num)]
    exact mul_le_mul_of_nonneg_right hlow hpos.le
  · rw [zpow_add₀ (by norm_num)]
    exact mul_lt_mul_of_pos_right hhigh hpos

/-- What a finite double covers is far from the exponents that are decided by the digit count. -/
theorem Covers.lt {v : ℚ} (h : x.Covers v) (hfinite : x.magnitude < infinity) :
    v < 10 ^ (310 : ℤ) := by
  have hexp : x.exponent ≤ 971 := by
    rw [x.magnitude_eq_biased, infinity] at hfinite
    have hbiased : x.biased < 0x7FF := by
      by_contra hle
      have hmul := Nat.mul_le_mul_right exponentWeight (not_lt.mp hle)
      omega
    rcases x.cases_biased with ⟨-, he, -⟩ | ⟨-, he, -⟩ <;> omega
  have hten : 2 ^ 1024 ≤ 10 ^ 310 := by decide +kernel
  calc v < 2 ^ (53 + x.exponent) := h.lt_two_zpow
    _ ≤ 2 ^ (1024 : ℤ) := zpow_le_zpow_right₀ (by norm_num) (by omega)
    _ ≤ 10 ^ (310 : ℤ) := by exact_mod_cast hten

theorem Covers.gt {v : ℚ} (h : x.Covers v) (hs : x.significand ≠ 0) :
    10 ^ (-331 : ℤ) < v := by
  have hscaled := ((between_mul_iff x.unit_pos).mp h).low_le
  have hsig : (1 : ℚ) ≤ x.significand := by exact_mod_cast Nat.pos_of_ne_zero hs
  have hlow : (1 / 2 : ℚ) ≤ v / x.unit := by linarith [x.below_le]
  have hten : 2 ^ 1075 < 10 ^ 331 := by decide +kernel
  calc (10 : ℚ) ^ (-331 : ℤ) < 2 ^ (-1075 : ℤ) := by
        rw [zpow_neg, zpow_neg]
        exact inv_strictAnti₀ (by positivity) (by exact_mod_cast hten)
    _ = 2 ^ (-1 : ℤ) * 2 ^ (-1074 : ℤ) := by
        rw [← zpow_add₀ two_ne_zero]
        rfl
    _ = 1 / 2 * 2 ^ (-1074 : ℤ) := by rw [zpow_neg_one, one_div]
    _ ≤ 1 / 2 * x.unit := by
      have hunit : (2 : ℚ) ^ (-1074 : ℤ) ≤ x.unit :=
        zpow_le_zpow_right₀ (by norm_num) x.le_exponent
      linarith
    _ ≤ v := (le_div_iff₀ x.unit_pos).mp hlow

/-- **A decimal that a double covers is read as this double**, with the sign it is given. -/
theorem ofDecimal_of_covers (negative : Bool) {m : Nat} {e : ℤ} (hs : x.significand ≠ 0)
    (hfinite : x.magnitude < infinity) (hcovers : x.Covers (m * 10 ^ e)) :
    ofDecimal negative m e = some (ofMagnitude negative x.magnitude) := by
  have hpos : (0 : ℚ) < m * 10 ^ e := lt_trans (by positivity) (hcovers.gt hs)
  have hm : 0 < m := by
    refine Nat.pos_of_ne_zero fun hzero => ?_
    rw [hzero] at hpos
    norm_num at hpos
  obtain ⟨hlow, hhigh⟩ := decimal_bounds hm e
  have hten : (1 : ℚ) ≤ 10 := by norm_num
  have hlarge : ¬ 310 < (digitCount m : ℤ) + e := by
    intro hlt
    have hle := zpow_le_zpow_right₀ hten (show (310 : ℤ) ≤ digitCount m + e - 1 by omega)
    exact absurd (hcovers.lt hfinite) (not_lt.mpr (hle.trans hlow))
  have hsmall : ¬ (digitCount m : ℤ) + e < -330 := by
    intro hlt
    have hle := zpow_le_zpow_right₀ hten (show (digitCount m : ℤ) + e ≤ -331 by omega)
    exact absurd (hcovers.gt hs) (not_lt.mpr (hhigh.le.trans hle))
  have hratio : ((m * Nat.pow 10 e.toNat : ℕ) : ℚ) / (Nat.pow 10 (-e).toNat : ℕ) = m * 10 ^ e := by
    rw [Nat.cast_mul, mul_div_assoc, natPow_div_natPow (by decide)]
    rfl
  have hmagnitude : magnitudeOfRatio (m * Nat.pow 10 e.toNat) (Nat.pow 10 (-e).toNat) =
      x.magnitude := by
    refine magnitudeOfRatio_eq_of_covers ?_ ?_ ?_
    · exact Nat.mul_pos hm (Nat.pow_pos (by decide))
    · exact Nat.pow_pos (by decide)
    · rwa [hratio]
  rw [ofDecimal, if_neg hm.ne', if_neg hlarge, if_neg hsmall]
  dsimp only
  rw [hmagnitude, if_pos hfinite]

/-! ## 5. Signs -/

theorem toNat_bits_ofMagnitude (negative : Bool) {m : Nat} (hm : m < signWeight) :
    (ofMagnitude negative m).bits.toNat = (if negative then signWeight else 0) + m := by
  have hlt : (if negative then signWeight else 0) + m < 2 ^ 64 := by
    unfold signWeight at hm ⊢
    split_ifs <;> omega
  exact UInt64.toNat_ofNat_of_lt' hlt

theorem magnitude_ofMagnitude (negative : Bool) {m : Nat} (hm : m < signWeight) :
    (ofMagnitude negative m).magnitude = m := by
  rw [magnitude, toNat_bits_ofMagnitude negative hm]
  split_ifs
  · rw [Nat.add_mod_left, Nat.mod_eq_of_lt hm]
  · rw [Nat.zero_add, Nat.mod_eq_of_lt hm]

theorem magnitude_lt (x : Binary64) : x.magnitude < signWeight :=
  Nat.mod_lt _ (by decide)

/-- What is read is finite. -/
theorem magnitude_lt_of_ofDecimal {negative : Bool} {m : Nat} {e : ℤ}
    (h : ofDecimal negative m e = some x) : x.magnitude < infinity := by
  have hzero : (ofMagnitude negative 0).magnitude < infinity := by
    rw [magnitude_ofMagnitude negative (by decide)]
    decide
  unfold ofDecimal at h
  split_ifs at h
  · cases h
    exact hzero
  · cases h
    exact hzero
  · dsimp only at h
    split_ifs at h with hfinite
    cases h
    have hsmall : infinity < signWeight := by decide
    rw [magnitude_ofMagnitude negative (hfinite.trans hsmall)]
    exact hfinite

/-- A double is its sign and its magnitude. -/
theorem ofMagnitude_magnitude (x : Binary64) : ofMagnitude x.negative x.magnitude = x := by
  have hbits : (ofMagnitude x.negative x.magnitude).bits.toNat = x.bits.toNat := by
    rw [toNat_bits_ofMagnitude _ x.magnitude_lt]
    have hlt : x.bits.toNat < 2 ^ 64 := x.bits.toNat_lt
    unfold negative magnitude signWeight
    by_cases hle : 0x8000000000000000 ≤ x.bits.toNat
    · rw [decide_eq_true hle, if_pos rfl]
      omega
    · rw [decide_eq_false hle, if_neg Bool.false_ne_true]
      omega
  obtain ⟨bits⟩ := x
  exact congrArg Binary64.mk (UInt64.toNat_inj.mp hbits)

end ChatRelay.Binary64
