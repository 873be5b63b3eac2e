import ChatRelay.Number.Decimal
import ChatRelay.Proofs.Rounding

/-!
# Decimal digits are read back

The decimal that is written for a double lies among the numbers that round to it
(`Decimal.covers_ofDouble`).

* `Scale.times_near` -- a product with a power of ten is off by less than one: by half for the power
  and by half for the product. So an interval whose ends are moved inwards by one stays within the
  boundaries (`Scale.times_bounds`);
* `scaled_exponent_nonpos` -- scaled numbers have their point among their bits;
* `within_digitsOf` -- the digits stand in the interval: the search stops when no more is left of
  the upper end than the interval is wide, and `lower` keeps to that.
-/

namespace ChatRelay.Decimal

open Binary64 (natPow_div_natPow ratio_scaled roundDiv_near unitExponent_spec)

/-! ## 1. Boundaries -/

variable {x : Binary64}

/-- A quarter of a unit, as the code has it. -/
theorem shifted_unit (x : Binary64) (shift : Nat) :
    ((Nat.pow 2 shift : ℕ) : ℚ) * 2 ^ (x.exponent - 2 - shift) = x.unit / 4 := by
  rw [Nat.pow_eq, Nat.cast_pow, Nat.cast_ofNat, ← zpow_natCast, ← zpow_add₀ two_ne_zero,
    add_sub_cancel, zpow_sub₀ two_ne_zero]
  norm_num [Binary64.unit]

theorem high_eq (x : Binary64) :
    ((Interval.of x).high : ℚ) * 2 ^ (Interval.of x).exponent =
      (x.significand + 1 / 2) * x.unit := by
  show (((4 * x.significand + 2) * Nat.pow 2 _ : ℕ) : ℚ) * _ = _
  rw [Nat.cast_mul, mul_assoc]
  refine (congrArg (_ * ·) (shifted_unit x _)).trans ?_
  push_cast
  ring

theorem low_eq (hs : x.significand ≠ 0) :
    ((Interval.of x).low : ℚ) * 2 ^ (Interval.of x).exponent =
      (x.significand - x.below) * x.unit := by
  have hpos := Nat.pos_of_ne_zero hs
  show (((4 * x.significand - (if x.fraction = 0 ∧ 1 < x.biased then 1 else 2)) *
    Nat.pow 2 _ : ℕ) : ℚ) * _ = _
  rw [Nat.cast_mul, mul_assoc]
  refine (congrArg (_ * ·) (shifted_unit x _)).trans ?_
  rw [Binary64.below]
  split_ifs
  · rw [Nat.cast_sub (by omega)]
    push_cast
    ring
  · rw [Nat.cast_sub (by omega)]
    push_cast
    ring

/-- The upper boundary has from two to 55 bits before it is shifted. -/
theorem log2_bounds (x : Binary64) :
    1 ≤ (4 * x.significand + 2).log2 ∧ (4 * x.significand + 2).log2 < 55 := by
  have hlt := x.significand_lt
  unfold Binary64.exponentWeight at hlt
  constructor
  · exact (Nat.le_log2 (by omega)).mpr (by omega)
  · exact (Nat.log2_lt (by omega)).mpr (by omega)

theorem high_lt (x : Binary64) : (Interval.of x).high < 2 ^ 64 := by
  obtain ⟨-, hlog⟩ := log2_bounds x
  have hlt : 4 * x.significand + 2 < 2 ^ ((4 * x.significand + 2).log2 + 1) := Nat.lt_log2_self
  show (4 * x.significand + 2) * Nat.pow 2 (63 - (4 * x.significand + 2).log2) < 2 ^ 64
  calc (4 * x.significand + 2) * Nat.pow 2 (63 - (4 * x.significand + 2).log2)
      < 2 ^ ((4 * x.significand + 2).log2 + 1) * 2 ^ (63 - (4 * x.significand + 2).log2) :=
        Nat.mul_lt_mul_of_pos_right hlt (Nat.pow_pos (by decide))
    _ = 2 ^ 64 := by
      rw [← Nat.pow_add]
      congr 1
      omega

/-- The boundaries are far apart. -/
theorem low_add_le_high (x : Binary64) : (Interval.of x).low + 8 ≤ (Interval.of x).high := by
  obtain ⟨-, hlog⟩ := log2_bounds x
  have hshift : 2 ^ 3 ≤ 2 ^ (63 - (4 * x.significand + 2).log2) :=
    Nat.pow_le_pow_right (by decide) (by omega)
  show (4 * x.significand - _) * Nat.pow 2 (63 - (4 * x.significand + 2).log2) + 8 ≤
    (4 * x.significand + 2) * Nat.pow 2 (63 - (4 * x.significand + 2).log2)
  rw [Nat.pow_eq, Nat.add_mul]
  have hle := Nat.mul_le_mul_right (2 ^ (63 - (4 * x.significand + 2).log2))
    (Nat.sub_le (4 * x.significand) (if x.fraction = 0 ∧ 1 < x.biased then 1 else 2))
  omega

theorem exponent_bounds (x : Binary64) :
    -1138 ≤ (Interval.of x).exponent ∧ (Interval.of x).exponent ≤ 961 := by
  obtain ⟨hlog, hlog'⟩ := log2_bounds x
  have hbiased : x.biased < 0x800 := Nat.mod_lt _ (by decide)
  show -1138 ≤ x.exponent - 2 - (63 - (4 * x.significand + 2).log2 : ℕ) ∧
    x.exponent - 2 - (63 - (4 * x.significand + 2).log2 : ℕ) ≤ 961
  rcases x.cases_biased with ⟨-, he, -⟩ | ⟨hb, he, -⟩ <;> omega

/-! ## 2. Powers of ten -/

namespace Scale

/-- The power has 64 bits before it is rounded. -/
theorem two_pow_le_ofPower (k : ℤ) : (2 : ℚ) ^ 63 ≤ 10 ^ k / 2 ^ (ofPower k).exponent := by
  have hnum : 0 < Nat.pow 10 k.toNat := Nat.pow_pos (by decide)
  have hden : 0 < Nat.pow 10 (-k).toNat := Nat.pow_pos (by decide)
  have hbits := (unitExponent_spec hnum hden).1
  rw [natPow_div_natPow (by decide), Nat.cast_ofNat] at hbits
  rw [le_div_iff₀ (by positivity)]
  refine le_trans (le_of_eq ?_) hbits
  show (2 : ℚ) ^ 63 * 2 ^ (Binary64.unitExponent _ _ - 11) = _
  rw [← zpow_natCast, ← zpow_add₀ two_ne_zero]
  congr 1
  push_cast
  ring

theorem ofPower_near (k : ℤ) :
    |((ofPower k).significand : ℚ) - 10 ^ k / 2 ^ (ofPower k).exponent| ≤ 1 / 2 := by
  have hten : ((Nat.pow 10 k.toNat : ℕ) : ℚ) / (Nat.pow 10 (-k).toNat : ℕ) = 10 ^ k :=
    natPow_div_natPow (by decide) k
  rw [← hten, ← ratio_scaled]
  exact roundDiv_near (Nat.mul_pos (Nat.pow_pos (by decide)) (Nat.pow_pos (by decide)))

/-- The rounded high half of a product. -/
theorem times_near_product (c : Scale) (n : Nat) :
    |(c.times n : ℚ) - n * c.significand / 2 ^ 64| ≤ 1 / 2 := by
  have hsplit := Nat.div_add_mod' (n * c.significand + 0x8000000000000000) 0x10000000000000000
  have hrest := Nat.mod_lt (n * c.significand + 0x8000000000000000)
    (by decide : 0x10000000000000000 > 0)
  rw [times]
  generalize (n * c.significand + 0x8000000000000000) / 0x10000000000000000 = high at hsplit ⊢
  generalize (n * c.significand + 0x8000000000000000) % 0x10000000000000000 = rest at hsplit hrest
  have hsplit' : (high * 2 ^ 64 + rest : ℚ) = n * c.significand + 2 ^ 63 := by exact_mod_cast hsplit
  have hrest' : (rest : ℚ) < 2 ^ 64 := by exact_mod_cast hrest
  have hdiff : (high : ℚ) - n * c.significand / 2 ^ 64 = (2 ^ 63 - rest) / 2 ^ 64 := by
    rw [eq_div_iff (by norm_num), sub_mul, div_mul_cancel₀ _ (by norm_num)]
    linarith
  have hnonneg : (0 : ℚ) ≤ rest := Nat.cast_nonneg rest
  rw [hdiff, abs_le]
  constructor
  · rw [le_div_iff₀ (by norm_num)]
    linarith
  · rw [div_le_iff₀ (by norm_num)]
    linarith

/-- **A product with a power of ten is off by less than one.** -/
theorem times_near (k : ℤ) {n : Nat} (hn : n < 2 ^ 64) :
    |((ofPower k).times n : ℚ) - n * (10 ^ k / 2 ^ ((ofPower k).exponent + 64))| < 1 := by
  have hproduct := times_near_product (ofPower k) n
  have hpower := ofPower_near k
  have hscaled : (10 : ℚ) ^ k / 2 ^ ((ofPower k).exponent + 64) =
      10 ^ k / 2 ^ (ofPower k).exponent / 2 ^ 64 := by
    rw [zpow_add₀ two_ne_zero, div_div]
    rfl
  have hn' : (n : ℚ) / 2 ^ 64 < 1 := by
    rw [div_lt_one (by norm_num)]
    exact_mod_cast hn
  have hnonneg : (0 : ℚ) ≤ n / 2 ^ 64 := by positivity
  rw [hscaled]
  generalize (10 : ℚ) ^ k / 2 ^ (ofPower k).exponent = p at hpower ⊢
  calc |((ofPower k).times n : ℚ) - n * (p / 2 ^ 64)|
      = |((ofPower k).times n - n * (ofPower k).significand / 2 ^ 64) +
          n / 2 ^ 64 * ((ofPower k).significand - p)| := by congr 1; ring
    _ ≤ |((ofPower k).times n : ℚ) - n * (ofPower k).significand / 2 ^ 64| +
          n / 2 ^ 64 * |((ofPower k).significand : ℚ) - p| := by
        refine (abs_add_le _ _).trans_eq ?_
        rw [abs_mul, abs_of_nonneg hnonneg]
    _ ≤ 1 / 2 + n / 2 ^ 64 * (1 / 2) := by gcongr
    _ < 1 := by linarith

/-- **The ends of a scaled interval**, moved inwards by one, stay inside. -/
theorem times_bounds (k : ℤ) {low high : Nat} (hhigh : high < 2 ^ 64) (hapart : low + 8 ≤ high) :
    (ofPower k).times low + 2 ≤ (ofPower k).times high ∧
      (low : ℚ) * (10 ^ k / 2 ^ ((ofPower k).exponent + 64)) < (ofPower k).times low + 1 ∧
      ((ofPower k).times high : ℚ) - 1 <
        high * (10 ^ k / 2 ^ ((ofPower k).exponent + 64)) := by
  have hlow : low < 2 ^ 64 := by omega
  obtain ⟨hlowDown, hlowUp⟩ := abs_lt.mp (times_near k hlow)
  obtain ⟨hhighDown, hhighUp⟩ := abs_lt.mp (times_near k hhigh)
  refine ⟨?_, by linarith, by linarith⟩
  have hhalf := two_pow_le_ofPower k
  have hscale : (1 / 2 : ℚ) ≤ 10 ^ k / 2 ^ ((ofPower k).exponent + 64) := by
    rw [zpow_add₀ two_ne_zero, ← div_div, le_div_iff₀ (by positivity)]
    refine le_trans (le_of_eq ?_) hhalf
    norm_num
  have hapart' : (low + 8 : ℚ) ≤ high := by exact_mod_cast hapart
  generalize (10 : ℚ) ^ k / 2 ^ ((ofPower k).exponent + 64) = p at *
  have hfour : (low : ℚ) * p + 4 ≤ high * p := by nlinarith
  have hlt : ((ofPower k).times low + 2 : ℚ) < (ofPower k).times high := by linarith
  exact_mod_cast hlt.le

/-- An upper bound for the exponents of all powers that are used, each from the logarithm. -/
theorem exponent_ofPower_le : ∀ i < 80,
    ((ofPower (8 * (i : ℕ) - 300)).exponent + 3) * 78913 + (308 - 8 * (i : ℕ)) * 0x40000 ≤ 0 := by
  decide +kernel

end Scale

/-- **Scaled numbers are no larger than their bits say**: none of these stand before the point. -/
theorem scaled_exponent_nonpos {e : ℤ} (hlow : -1138 ≤ e) (hhigh : e ≤ 961) :
    e + (Scale.ofPower (powerFor e)).exponent + 64 ≤ 0 := by
  obtain ⟨i, hi⟩ := Int.eq_ofNat_of_zero_le
    (show 0 ≤ (307 - (61 + e) * 78913 / 0x40000) / 8 by omega)
  have hpower : powerFor e = 8 * (i : ℕ) - 300 := by
    rw [powerFor, hi]
    omega
  have hbound := Scale.exponent_ofPower_le i (by omega)
  rw [hpower]
  omega

/-! ## 3. Digits -/

/-- The interval of this width below an upper end. -/
def Within (upper width v : ℚ) : Prop :=
  upper - width ≤ v ∧ v ≤ upper

theorem within_mul_iff {upper width v unit : ℚ} (hunit : 0 < unit) :
    Within (upper * unit) (width * unit) (v * unit) ↔ Within upper width v := by
  rw [Within, Within, ← sub_mul, mul_le_mul_iff_left₀ hunit, mul_le_mul_iff_left₀ hunit]

variable {rest width step bits : Nat} (distance : Nat)

/-- **Lowering stays in the interval**: each unit of the last digit is one step down, and no step
    goes below the lower end. By induction on the digits, which count the units. -/
theorem exists_lower_eq (step digits : Nat) (hrest : rest ≤ width) :
    ∃ n, lower distance width step digits rest + n = digits ∧ rest + n * step ≤ width := by
  induction digits generalizing rest with
  | zero => exact ⟨0, rfl, by omega⟩
  | succ digits ih =>
    rw [lower]
    split_ifs with hcloser
    · obtain ⟨n, hn, hle⟩ := ih (show rest + step ≤ width by omega)
      refine ⟨n + 1, by omega, ?_⟩
      rw [Nat.add_mul]
      omega
    · exact ⟨0, rfl, by omega⟩

/-- The digits at which the search stops are in the interval, in units of the last digit. -/
theorem within_lower (hstep : 0 < step) (digits : Nat) (hrest : rest ≤ width) :
    Within (digits + rest / step) (width / step) (lower distance width step digits rest) := by
  have hstep' : (0 : ℚ) < step := by exact_mod_cast hstep
  obtain ⟨n, hn, hle⟩ := exists_lower_eq distance step digits hrest
  have hn' : (lower distance width step digits rest + n : ℚ) = digits := by exact_mod_cast hn
  have hle' : (rest + n * step : ℚ) ≤ width := by exact_mod_cast hle
  have hdiv : (rest : ℚ) / step + n ≤ width / step := by
    rw [div_add' _ _ _ hstep'.ne']
    gcongr
  have hrest' : (0 : ℚ) ≤ rest / step := by positivity
  have hnonneg : (0 : ℚ) ≤ n := Nat.cast_nonneg n
  constructor <;> linarith

/-- The number that a decimal stands for. -/
def value (d : Decimal) : ℚ :=
  d.digits * 10 ^ d.exponent

theorem value_sub (d : Decimal) (k : ℤ) :
    value ⟨d.digits, d.exponent - k⟩ = d.value / 10 ^ k := by
  rw [value, value, zpow_sub₀ (by norm_num), mul_div_assoc]

/-- A number by its whole part and what is left, as the code has them. -/
theorem div_add_mod_div (n : Nat) {unit : Nat} (hunit : 0 < unit) :
    ((n / unit : ℕ) : ℚ) + (n % unit : ℕ) / unit = n / unit := by
  have hunit' : (unit : ℚ) ≠ 0 := by exact_mod_cast hunit.ne'
  rw [eq_div_iff hunit', add_mul, div_mul_cancel₀ _ hunit']
  exact_mod_cast Nat.div_add_mod' n unit

/-- **The digits behind the point are in the interval**: a digit more is the same upper end and the
    same width in units of a tenth. By induction on the bits that are left. -/
theorem within_digitsBehind (width digits : Nat) (exponent : ℤ) (hrest : rest < 2 ^ bits) :
    Within ((digits + rest / 2 ^ bits) * 10 ^ exponent) (width / 2 ^ bits * 10 ^ exponent)
      (digitsBehind digits rest distance width exponent bits).value := by
  induction bits generalizing digits rest distance width exponent with
  | zero =>
    obtain rfl : rest = 0 := by omega
    rw [digitsBehind, value, within_mul_iff (by positivity)]
    have hwidth : (0 : ℚ) ≤ width := Nat.cast_nonneg width
    constructor <;> simp
  | succ bits ih =>
    have hunit : 0 < 2 ^ bits := Nat.pow_pos (by decide)
    have hten : (10 : ℚ) ^ exponent = 10 * 10 ^ (exponent - 1) := by
      rw [← zpow_one_add₀ (by norm_num), add_sub_cancel]
    have hupper : ((digits + rest / 2 ^ (bits + 1)) * 10 ^ exponent : ℚ) =
        ((digits * 10 + rest * 5 / 2 ^ bits : ℕ) + (rest * 5 % 2 ^ bits : ℕ) / (2 ^ bits : ℕ)) *
          10 ^ (exponent - 1) := by
      rw [hten, Nat.cast_add, add_assoc, div_add_mod_div _ hunit, pow_succ]
      push_cast
      field_simp
      ring
    have hwidth : (width / 2 ^ (bits + 1) * 10 ^ exponent : ℚ) =
        (width * 5 : ℕ) / (2 ^ bits : ℕ) * 10 ^ (exponent - 1) := by
      rw [hten, pow_succ]
      push_cast
      field_simp
      ring
    rw [digitsBehind]
    simp only [Nat.pow_eq]
    rw [hupper, hwidth]
    split_ifs with hstop
    · rw [value, within_mul_iff (by positivity)]
      exact within_lower (distance * 5) hunit _ hstop
    · have hmore := ih (distance * 5) (width * 5) (digits * 10 + rest * 5 / 2 ^ bits) (exponent - 1)
        (Nat.mod_lt (rest * 5) hunit)
      push_cast at hmore ⊢
      exact hmore

/-- **The digits of the upper end are in the interval**, by induction on the places before the
    point. -/
theorem within_digitsOf (width upper bits places : Nat) :
    Within (upper / 2 ^ bits) (width / 2 ^ bits)
      (digitsOf upper distance width bits places).value := by
  have hunit : 0 < 2 ^ bits := Nat.pow_pos (by decide)
  induction places with
  | zero =>
    have hbehind := within_digitsBehind distance width (upper / 2 ^ bits) 0
      (Nat.mod_lt upper hunit)
    have hsplit := div_add_mod_div upper hunit
    push_cast at hsplit
    rw [hsplit, zpow_zero, mul_one, mul_one] at hbehind
    exact hbehind
  | succ place ih =>
    rw [digitsOf]
    simp only [Nat.pow_eq]
    split_ifs with hstop
    · have hstep : 0 < 10 ^ place * 2 ^ bits := Nat.mul_pos (Nat.pow_pos (by decide)) hunit
      have hten : (0 : ℚ) < 10 ^ place := by positivity
      have hlower := within_lower distance hstep (upper / (10 ^ place * 2 ^ bits)) hstop
      rw [div_add_mod_div upper hstep, ← within_mul_iff hten] at hlower
      have hcancel (n : Nat) : (n / (10 ^ place * 2 ^ bits : ℕ) * 10 ^ place : ℚ) =
          n / 2 ^ bits := by
        push_cast
        field_simp
      rw [hcancel, hcancel] at hlower
      exact hlower
    · exact ih

/-! ## 4. Doubles -/

variable {x : Binary64}

/-- The digits of a scaled interval, brought back to its own scale, are inside of it. -/
theorem digitsOf_between {e k : ℤ} {low high upper : Nat}
    (hbits : (bits : ℤ) = -(e + (Scale.ofPower k).exponent + 64)) (hhigh : high < 2 ^ 64)
    (hapart : low + 8 ≤ high) (hupper : upper = (Scale.ofPower k).times high - 1)
    (hwidth : width = upper - ((Scale.ofPower k).times low + 1)) (places : Nat) :
    (low * 2 ^ e : ℚ) < (digitsOf upper distance width bits places).value / 10 ^ k ∧
      (digitsOf upper distance width bits places).value / 10 ^ k < high * 2 ^ e := by
  obtain ⟨hle, hbelow, habove⟩ := Scale.times_bounds k hhigh hapart
  obtain ⟨hdown, hup⟩ := within_digitsOf distance width upper bits places
  have hunit :
      (10 : ℚ) ^ k / 2 ^ ((Scale.ofPower k).exponent + 64) = 10 ^ k * 2 ^ e * 2 ^ bits := by
    rw [mul_assoc, ← zpow_natCast, hbits, ← zpow_add₀ two_ne_zero, div_eq_mul_inv, ← zpow_neg]
    congr 2
    ring
  have hupper' : (upper : ℚ) = (Scale.ofPower k).times high - 1 := by
    rw [hupper, Nat.cast_sub (by omega), Nat.cast_one]
  have hlower' : (upper : ℚ) - width = (Scale.ofPower k).times low + 1 := by
    rw [hwidth, Nat.cast_sub (by omega)]
    push_cast
    ring
  have hpower : (0 : ℚ) < 2 ^ bits := by positivity
  have hten : (0 : ℚ) < 10 ^ k := by positivity
  rw [hunit] at hbelow habove
  rw [← sub_div, hlower', div_le_iff₀ hpower] at hdown
  rw [le_div_iff₀ hpower, hupper'] at hup
  rw [lt_div_iff₀ hten, div_lt_iff₀ hten]
  constructor
  · refine lt_of_mul_lt_mul_right ?_ hpower.le
    linarith
  · refine lt_of_mul_lt_mul_right ?_ hpower.le
    linarith

theorem Interval.value_digits_between {i : Interval} (hlow : -1138 ≤ i.exponent)
    (hhigh : i.exponent ≤ 961) (hbits : i.high < 2 ^ 64) (hapart : i.low + 8 ≤ i.high) :
    (i.low * 2 ^ i.exponent : ℚ) < i.digits.value ∧
      i.digits.value < i.high * 2 ^ i.exponent := by
  have hexponent := scaled_exponent_nonpos hlow hhigh
  rw [digits, value_sub]
  exact digitsOf_between _ (Int.toNat_of_nonneg (by omega)) hbits hapart rfl rfl _

/-- **The digits are among the numbers that round to the double.** -/
theorem covers_ofDouble (hs : x.significand ≠ 0) : x.Covers (ofDouble x).value := by
  obtain ⟨hlow, hhigh⟩ := exponent_bounds x
  have hbetween := Interval.value_digits_between hlow hhigh (high_lt x) (low_add_le_high x)
  rw [low_eq hs, high_eq x] at hbetween
  exact Binary64.covers_of_lt hbetween.1 hbetween.2

/-- Fewer digits may do: what is written for the double `1e23` has sixteen. -/
example : ofDouble ⟨0x44B52D02C7E14AF6⟩ = ⟨9999999999999999, 7⟩ := by decide +kernel

theorem digits_ofDouble_pos (hs : x.significand ≠ 0) : 0 < (ofDouble x).digits := by
  refine Nat.pos_of_ne_zero fun hzero => ?_
  have hpos := lt_trans (by positivity) ((covers_ofDouble hs).gt hs)
  rw [value, hzero, Nat.cast_zero, zero_mul] at hpos
  exact lt_irrefl _ hpos

end ChatRelay.Decimal
