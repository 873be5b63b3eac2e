import ChatRelay.Proofs.Ascii
import ChatRelay.Proofs.ReaderRules
import ChatRelay.Proofs.DecimalDigits

/-!
# Numbers are read back

The reader of numbers, at the text of a number that the writer has written, gives that number
(`readNumber_ofInt`, `readNumber_render`). The reader rounds the decimal that is written for a
double to the double that the decimal is covered by (`covers_ofDouble`, `ofDecimal_of_covers`).

What the reader does with a text is said once for all layouts of a decimal: `ReadsAs text v` -- the
three parts of the numeral are read off `text`, and the digits and the exponent stand for `v`.
Behind the number comes a byte that no number goes on with (`Ends`).
-/

namespace ChatRelay

/-! ## 1. Digits -/

namespace Bytes

/-- A text of decimal digits only. -/
def Digits (s : Bytes) : Prop :=
  ∀ b ∈ s, isDigit b = true

variable {s t : Bytes}

theorem Digits.append (hs : Digits s) (ht : Digits t) : Digits (s ++ t) :=
  List.forall_mem_append.mpr ⟨hs, ht⟩

theorem isDigit_digit {n : Nat} (h : n < 10) : isDigit (digit n) = true := by
  have hbyte := toNat_digit h
  rw [isDigit, Bool.and_eq_true, decide_eq_true_iff, decide_eq_true_iff, UInt8.le_iff_toNat_le,
    UInt8.le_iff_toNat_le, hbyte]
  exact ⟨by show 0x30 ≤ _; omega, by show _ ≤ 0x39; omega⟩

theorem digits_ofNat (n : Nat) : Digits (ofNat n) := by
  fun_induction ofNat n with
  | case1 n h => exact List.forall_mem_singleton.mpr (isDigit_digit h)
  | case2 n h ih =>
    exact ih.append (List.forall_mem_singleton.mpr (isDigit_digit (Nat.mod_lt n (by decide))))

theorem digits_replicate (n : Nat) : Digits (List.replicate n 0x30) := by
  intro b hb
  rw [List.eq_of_mem_replicate hb]
  decide

theorem ofNat_ne_nil (n : Nat) : ofNat n ≠ [] := by
  unfold ofNat
  split_ifs <;> simp

/-- The numeral of a positive number has no leading zero. -/
theorem head?_ofNat {n : Nat} (hn : 0 < n) : (ofNat n).head? ≠ some 0x30 := by
  fun_induction ofNat n with
  | case1 n h =>
    intro hzero
    have hbyte := toNat_digit h
    rw [Option.some.inj hzero] at hbyte
    have hval : (0x30 : UInt8).toNat = 0x30 := rfl
    omega
  | case2 n h ih =>
    rw [List.head?_append_of_ne_nil _ (ofNat_ne_nil _)]
    exact ih (by omega)

/-- A numeral has a leading zero only when it is a single zero. -/
theorem ofNat_noLeadingZero (n : Nat) :
    ¬ (1 < (ofNat n).length ∧ (ofNat n).head? = some 0x30) := by
  intro ⟨hlength, hhead⟩
  rcases Nat.eq_zero_or_pos n with rfl | hn
  · rw [ofNat, if_pos (by decide)] at hlength
    exact absurd hlength (by decide)
  · exact head?_ofNat hn hhead

theorem natOfDigits_append (s t : Bytes) :
    natOfDigits (s ++ t) = natOfDigits s * 10 ^ t.length + natOfDigits t := by
  induction t using List.reverseRecOn with
  | nil => rw [List.append_nil, List.length_nil, Nat.pow_zero, Nat.mul_one]; rfl
  | append_singleton t b ih =>
    have hstep (s : Bytes) : natOfDigits (s ++ [b]) = natOfDigits s * 10 + (b.toNat - 0x30) := by
      rw [natOfDigits, List.foldl_append]
      rfl
    rw [← List.append_assoc, hstep, hstep, ih, List.length_append, List.length_singleton,
      Nat.pow_succ, Nat.add_mul, Nat.mul_assoc, Nat.add_assoc]

theorem natOfDigits_replicate (n : Nat) : natOfDigits (List.replicate n 0x30) = 0 := by
  induction n with
  | zero => rfl
  | succ n ih =>
    rw [List.replicate_succ', natOfDigits_append, ih]
    rfl

end Bytes

/-! ## 2. Parts of a number -/

namespace Json

open Bytes (Digits natOfDigits)

/-- What stands behind a number does not go on with it. -/
def Ends (r : Bytes) : Prop :=
  ∀ b, r.head? = some b → Bytes.isDigit b = false ∧ b ≠ 0x2E ∧ b ≠ 0x65 ∧ b ≠ 0x45

/-- What stands behind digits is no digit. -/
def NoDigit (r : Bytes) : Prop :=
  ∀ b, r.head? = some b → Bytes.isDigit b = false

variable {s r digits : Bytes}

theorem readDigits_of_digits (hdigits : Digits digits) (hne : digits ≠ []) (hr : NoDigit r) :
    readDigits (digits ++ r) = .ok (digits, r) := by
  have hnone : r.takeWhile Bytes.isDigit = [] ∧ r.dropWhile Bytes.isDigit = r := by
    cases r with
    | nil => exact ⟨rfl, rfl⟩
    | cons b r =>
      have hb := hr b rfl
      exact ⟨List.takeWhile_cons_of_neg (Bool.eq_false_iff.mp hb),
        List.dropWhile_cons_of_neg (Bool.eq_false_iff.mp hb)⟩
  refine readDigits_eq_ok_iff.mpr ⟨hne, ?_, ?_⟩
  · rw [List.takeWhile_append_of_pos hdigits, hnone.1, List.append_nil]
  · rw [List.dropWhile_append_of_pos hdigits, hnone.2]

theorem readWhole_of_digits (hdigits : Digits digits) (hne : digits ≠ [])
    (hzero : ¬ (1 < digits.length ∧ digits.head? = some 0x30)) (hr : NoDigit r) :
    readWhole (digits ++ r) = .ok (digits, r) := by
  rw [readWhole, bind_eq_ok_iff]
  refine ⟨(digits, r), readDigits_of_digits hdigits hne hr, ?_⟩
  exact if_neg hzero

theorem expect_eq_none {b : UInt8} (h : r.head? ≠ some b) : expect [b] r = none := by
  rw [Option.eq_none_iff_forall_ne_some]
  intro t ht
  rw [expect_eq_some_iff.mp ht] at h
  exact h rfl

theorem readFraction_none (h : r.head? ≠ some 0x2E) : readFraction r = .ok (none, r) := by
  rw [readFraction, expect_eq_none h]

theorem readFraction_of_digits (hdigits : Digits digits) (hne : digits ≠ []) (hr : NoDigit r) :
    readFraction (0x2E :: (digits ++ r)) = .ok (some digits, r) := by
  have hpoint : expect [0x2E] (0x2E :: (digits ++ r)) = some (digits ++ r) :=
    expect_eq_some_iff.mpr rfl
  rw [readFraction, hpoint]
  exact bind_eq_ok_iff.mpr ⟨(digits, r), readDigits_of_digits hdigits hne hr, rfl⟩

theorem readExponent_none (hsmall : r.head? ≠ some 0x65) (hcapital : r.head? ≠ some 0x45) :
    readExponent r = .ok (none, r) := by
  have hnone : (expect (Bytes.ofString "e") r).or (expect (Bytes.ofString "E") r) = none :=
    Option.or_eq_none_iff.mpr ⟨expect_eq_none hsmall, expect_eq_none hcapital⟩
  rw [readExponent, hnone]

/-- A written exponent is a sign and digits, two of them at least. -/
theorem exists_digits_renderExponent (e : Int) :
    ∃ digits, Digits digits ∧ digits ≠ [] ∧ natOfDigits digits = e.natAbs ∧
      Binary64.renderExponent e = (if e < 0 then 0x2D else 0x2B) :: digits := by
  have hdigits := Bytes.digits_ofNat e.natAbs
  have hvalue := Bytes.natOfDigits_ofNat e.natAbs
  by_cases hshort : (Bytes.ofNat e.natAbs).length < 2
  · refine ⟨0x30 :: Bytes.ofNat e.natAbs, List.forall_mem_cons.mpr ⟨by decide, hdigits⟩,
      List.cons_ne_nil _ _, ?_, ?_⟩
    · rw [← List.singleton_append, Bytes.natOfDigits_append, hvalue]
      simp [natOfDigits]
    · rw [Binary64.renderExponent, if_pos hshort]
      split_ifs <;> rfl
  · refine ⟨Bytes.ofNat e.natAbs, hdigits, Bytes.ofNat_ne_nil _, hvalue, ?_⟩
    rw [Binary64.renderExponent, if_neg hshort]
    split_ifs <;> rfl

/-- The written exponent is read back. -/
theorem readExponent_renderExponent (e : Int) (hr : NoDigit r) :
    readExponent (0x65 :: (Binary64.renderExponent e ++ r)) = .ok (some e, r) := by
  obtain ⟨digits, hdigits, hne, hvalue, htext⟩ := exists_digits_renderExponent e
  have hread := readDigits_of_digits hdigits hne hr
  have hletter (t : Bytes) : (expect (Bytes.ofString "e") (0x65 :: t)).or
      (expect (Bytes.ofString "E") (0x65 :: t)) = some t := by
    have hsmall : expect (Bytes.ofString "e") (0x65 :: t) = some t := expect_eq_some_iff.mpr rfl
    rw [hsmall]
    rfl
  rw [readExponent, hletter, htext]
  dsimp only
  by_cases he : e < 0
  · have hminus : expect (Bytes.ofString "-") (0x2D :: (digits ++ r)) = some (digits ++ r) :=
      expect_eq_some_iff.mpr rfl
    rw [if_pos he, List.cons_append, hminus]
    refine bind_eq_ok_iff.mpr ⟨(digits, r), hread, ?_⟩
    dsimp only
    rw [hvalue]
    exact congrArg (fun n => Except.ok (some n, r)) (by omega)
  · have hminus : expect (Bytes.ofString "-") (0x2B :: (digits ++ r)) = none :=
      expect_eq_none fun h => absurd (Option.some.inj h) (by decide)
    have hplus : expect (Bytes.ofString "+") (0x2B :: (digits ++ r)) = some (digits ++ r) :=
      expect_eq_some_iff.mpr rfl
    rw [if_neg he, List.cons_append, hminus, hplus]
    refine bind_eq_ok_iff.mpr ⟨(digits, r), hread, ?_⟩
    dsimp only
    rw [hvalue]
    exact congrArg (fun n => Except.ok (some n, r)) (by omega)

/-! ## 3. Layouts -/

/-- **The text is read as a numeral that is no integer**, and its digits and exponent have this
    value. -/
def ReadsAs (text : Bytes) (v : ℚ) : Prop :=
  ∀ r, Ends r → ∃ whole fraction exponent u w,
    readWhole (text ++ r) = .ok (whole, u) ∧ readFraction u = .ok (fraction, w) ∧
      readExponent w = .ok (exponent, r) ∧ (fraction.isNone && exponent.isNone) = false ∧
      (natOfDigits (whole ++ fraction.getD []) *
        10 ^ (exponent.getD 0 - ((fraction.getD []).length : ℤ)) : ℚ) = v

theorem Ends.noDigit (hr : Ends r) : NoDigit r :=
  fun b hb => (hr b hb).1

theorem Ends.readFraction (hr : Ends r) : readFraction r = .ok (none, r) :=
  readFraction_none fun hb => (hr _ hb).2.1 rfl

theorem Ends.readExponent (hr : Ends r) : readExponent r = .ok (none, r) :=
  readExponent_none (fun hb => (hr _ hb).2.2.1 rfl) fun hb => (hr _ hb).2.2.2 rfl

theorem noDigit_cons {b : UInt8} (hb : Bytes.isDigit b = false) (s : Bytes) : NoDigit (b :: s) := by
  intro c hc
  rw [← Option.some.inj hc]
  exact hb

/-- Digits, a point and digits. -/
theorem readsAs_positional (whole fraction : Bytes) (hwhole : Digits whole) (hne : whole ≠ [])
    (hzero : ¬ (1 < whole.length ∧ whole.head? = some 0x30)) (hfraction : Digits fraction)
    (hne' : fraction ≠ []) :
    ReadsAs (whole ++ 0x2E :: fraction)
      (natOfDigits (whole ++ fraction) * 10 ^ (-(fraction.length : ℤ))) := by
  intro r hr
  refine ⟨whole, some fraction, none, 0x2E :: (fraction ++ r), r, ?_, ?_, hr.readExponent, rfl, ?_⟩
  · rw [List.append_assoc, List.cons_append]
    exact readWhole_of_digits hwhole hne hzero (noDigit_cons (by decide) _)
  · exact readFraction_of_digits hfraction hne' hr.noDigit
  · rw [Option.getD_some, Option.getD_none, Int.zero_sub]

/-- A digit, more digits behind a point if there are any, and an exponent. -/
theorem readsAs_scientific {d : UInt8} {rest : Bytes} (hd : Bytes.isDigit d = true)
    (hrest : Digits rest) (e : ℤ) :
    ReadsAs ((if rest.isEmpty then [d] else d :: 0x2E :: rest) ++
        0x65 :: Binary64.renderExponent e)
      (natOfDigits (d :: rest) * 10 ^ (e - (rest.length : ℤ))) := by
  intro r hr
  have hone : Digits [d] := List.forall_mem_singleton.mpr hd
  have hsingle : ¬ (1 < [d].length ∧ [d].head? = some 0x30) := fun h => Nat.lt_irrefl 1 h.1
  have hexponent := readExponent_renderExponent e hr.noDigit
  cases rest with
  | nil =>
    refine ⟨[d], none, some e, 0x65 :: (Binary64.renderExponent e ++ r),
      0x65 :: (Binary64.renderExponent e ++ r), ?_, ?_, hexponent, rfl, ?_⟩
    · exact readWhole_of_digits hone (List.cons_ne_nil _ _) hsingle (noDigit_cons (by decide) _)
    · exact readFraction_none (by simp)
    · rfl
  | cons b rest =>
    refine ⟨[d], some (b :: rest), some e,
      0x2E :: (b :: rest ++ 0x65 :: (Binary64.renderExponent e ++ r)),
      0x65 :: (Binary64.renderExponent e ++ r), ?_, ?_, hexponent, rfl, ?_⟩
    · have hread := readWhole_of_digits (r := 0x2E :: (b :: rest ++ 0x65 ::
        (Binary64.renderExponent e ++ r))) hone (List.cons_ne_nil _ _) hsingle
        (noDigit_cons (by decide) _)
      rw [← hread]
      simp
    · exact readFraction_of_digits hrest (List.cons_ne_nil _ _) (noDigit_cons (by decide) _)
    · rfl

theorem natCast_mul_ten_pow (n k : Nat) (e : ℤ) :
    ((n * 10 ^ k : ℕ) : ℚ) * 10 ^ e = n * 10 ^ (k + e) := by
  rw [zpow_add₀ (by norm_num), zpow_natCast]
  push_cast
  ring

section Positional

variable {digits : Bytes} (hdigits : Digits digits) (hne : digits ≠ [])

include hdigits hne

/-- Zeros between the digits and the point. -/
theorem readsAs_zeros_behind (hhead : digits.head? ≠ some 0x30) (n : Nat) :
    ReadsAs (digits ++ List.replicate n 0x30 ++ [0x2E, 0x30])
      (natOfDigits digits * 10 ^ (n : ℤ)) := by
  let zeros : Bytes := List.replicate n 0x30
  have hread := readsAs_positional (digits ++ zeros) [0x30]
    (hdigits.append (Bytes.digits_replicate _)) (by simp [hne])
    (fun h => hhead (by rw [← h.2, List.head?_append_of_ne_nil _ hne]))
    (Bytes.digits_replicate 1) (List.cons_ne_nil _ _)
  have hvalue : natOfDigits (digits ++ zeros ++ [0x30]) = natOfDigits digits * 10 ^ (n + 1) := by
    rw [List.append_assoc, Bytes.natOfDigits_append, Bytes.natOfDigits_append zeros,
      Bytes.natOfDigits_replicate, List.length_append, List.length_replicate]
    rfl
  rw [hvalue, natCast_mul_ten_pow] at hread
  convert hread using 3
  simp only [List.length_singleton]
  omega

/-- The point among the digits. -/
theorem readsAs_point_inside (hhead : digits.head? ≠ some 0x30) {n : Nat} (hpos : 0 < n)
    (hlt : n < digits.length) :
    ReadsAs (digits.take n ++ 0x2E :: digits.drop n)
      (natOfDigits digits * 10 ^ ((n : ℤ) - digits.length)) := by
  have hread := readsAs_positional (digits.take n) (digits.drop n)
    (fun b hb => hdigits b (List.mem_of_mem_take hb)) (by simp [hne]; omega)
    (fun h => hhead (by rw [← h.2, List.head?_take, if_neg (by omega)]))
    (fun b hb => hdigits b (List.mem_of_mem_drop hb)) (by simp; omega)
  rw [List.take_append_drop] at hread
  convert hread using 3
  rw [List.length_drop]
  omega

/-- Zeros between the point and the digits. -/
theorem readsAs_zeros_before (n : Nat) :
    ReadsAs ([0x30, 0x2E] ++ List.replicate n 0x30 ++ digits)
      (natOfDigits digits * 10 ^ (-(n : ℤ) - digits.length)) := by
  let zeros : Bytes := List.replicate n 0x30
  have hread := readsAs_positional [0x30] (zeros ++ digits) (Bytes.digits_replicate 1)
    (List.cons_ne_nil _ _) (fun h => Nat.lt_irrefl 1 h.1)
    ((Bytes.digits_replicate _).append hdigits) (by simp [hne])
  have hvalue : natOfDigits ([0x30] ++ (zeros ++ digits)) = natOfDigits digits := by
    rw [Bytes.natOfDigits_append, Bytes.natOfDigits_append zeros, Bytes.natOfDigits_replicate]
    simp [natOfDigits]
  have htext : [0x30, 0x2E] ++ zeros ++ digits = [0x30] ++ 0x2E :: (zeros ++ digits) := rfl
  rw [hvalue] at hread
  rw [htext]
  convert hread using 3
  rw [List.length_append, List.length_replicate]
  omega

/-- **Laid-out digits are read as what they stand for.** -/
theorem readsAs_layOut (hhead : digits.head? ≠ some 0x30) (point : ℤ) :
    ReadsAs (Binary64.layOut digits point)
      (natOfDigits digits * 10 ^ (point - (digits.length : ℤ))) := by
  unfold Binary64.layOut
  dsimp only
  split_ifs with hwhole hinside hsmall
  · have hread := readsAs_zeros_behind hdigits hne hhead (point - digits.length).toNat
    rwa [Int.toNat_of_nonneg (by omega)] at hread
  · have hpos : (point.toNat : ℤ) = point := Int.toNat_of_nonneg (by omega)
    have hread := readsAs_point_inside hdigits hne hhead (n := point.toNat) (by omega) (by omega)
    rwa [hpos] at hread
  · have hread := readsAs_zeros_before hdigits hne (-point).toNat
    rwa [Int.toNat_of_nonneg (by omega), neg_neg] at hread
  · cases digits with
    | nil => exact absurd rfl hne
    | cons d rest =>
      obtain ⟨hd, hrest⟩ := List.forall_mem_cons.mp hdigits
      have hread := readsAs_scientific hd hrest (point - 1)
      convert hread using 3
      rw [List.length_cons]
      omega

end Positional

/-- A zero, as it is written for a double. -/
theorem readsAs_zero : ReadsAs [0x30, 0x2E, 0x30] 0 := by
  have hread := readsAs_positional [0x30] [0x30] (Bytes.digits_replicate 1)
    (List.cons_ne_nil _ _) (fun h => Nat.lt_irrefl 1 h.1) (Bytes.digits_replicate 1)
    (List.cons_ne_nil _ _)
  have hvalue : natOfDigits ([0x30] ++ [0x30]) = 0 := rfl
  rw [hvalue, Nat.cast_zero, zero_mul] at hread
  exact hread

/-! ## 4. Numbers -/

theorem expect_minus_of_readWhole {whole u : Bytes} (h : readWhole s = .ok (whole, u)) :
    expect "-" s = none := by
  refine expect_eq_none fun hminus => ?_
  rw [readWhole, bind_eq_ok_iff] at h
  obtain ⟨⟨digits, rest⟩, hdigits, -⟩ := h
  obtain ⟨hne, hprefix, -⟩ := readDigits_eq_ok_iff.mp hdigits
  cases s with
  | nil => cases hminus
  | cons b s =>
    obtain rfl : b = 0x2D := Option.some.inj hminus
    exact hne hprefix.symm

/-- The sign of a number, as it is written. -/
def sign (negative : Bool) : Bytes :=
  if negative then [0x2D] else []

/-- A number is read part by part. -/
theorem readNumber_of_parts {negative : Bool} {whole u w : Bytes} {fraction : Option Bytes}
    {exponent : Option Int} {j : Json} (hwhole : readWhole s = .ok (whole, u))
    (hfraction : readFraction u = .ok (fraction, w))
    (hexponent : readExponent w = .ok (exponent, r))
    (hvalue : Numeral.toJson ⟨negative, whole, fraction, exponent⟩ = .ok j) :
    readNumber (sign negative ++ s) = .ok (j, r) := by
  have hsign : (expect "-" (sign negative ++ s)).getD (sign negative ++ s) = s ∧
      (expect "-" (sign negative ++ s)).isSome = negative := by
    cases negative with
    | true =>
      have hminus : expect "-" (sign true ++ s) = some s := expect_eq_some_iff.mpr rfl
      rw [hminus]
      exact ⟨rfl, rfl⟩
    | false =>
      have hnone : expect "-" (sign false ++ s) = none := expect_minus_of_readWhole hwhole
      rw [hnone]
      exact ⟨rfl, rfl⟩
  rw [readNumber, hsign.1, hsign.2]
  refine bind_eq_ok_iff.mpr ⟨(whole, u), hwhole, ?_⟩
  refine bind_eq_ok_iff.mpr ⟨(fraction, w), hfraction, ?_⟩
  refine bind_eq_ok_iff.mpr ⟨(exponent, r), hexponent, ?_⟩
  exact bind_eq_ok_iff.mpr ⟨j, hvalue, rfl⟩

theorem readNumber_of_readsAs {text : Bytes} {v : ℚ} (h : ReadsAs text v) {negative : Bool}
    {x : Binary64}
    (hx : ∀ (m : Nat) (e : ℤ), (m * 10 ^ e : ℚ) = v → Binary64.ofDecimal negative m e = some x)
    (hr : Ends r) : readNumber (sign negative ++ (text ++ r)) = .ok (.double x, r) := by
  obtain ⟨whole, fraction, exponent, u, w, hwhole, hfraction, hexponent, hpart, hvalue⟩ := h r hr
  refine readNumber_of_parts hwhole hfraction hexponent ?_
  have hdecimal := hx _ _ hvalue
  unfold Numeral.toJson
  simp only [hpart, hdecimal, Bool.false_and, Bool.false_eq_true, ↓reduceIte]

/-- **A finite double is read back from its text.** -/
theorem readNumber_render {x : Binary64} (hfinite : x.magnitude < Binary64.infinity)
    (hr : Ends r) : readNumber (x.render ++ r) = .ok (.double x, r) := by
  have hself := x.ofMagnitude_magnitude
  unfold Binary64.render
  dsimp only
  by_cases hzero : x.significand = 0
  · rw [if_pos hzero, List.append_assoc]
    refine readNumber_of_readsAs readsAs_zero (fun m e hvalue => ?_) hr
    have hm : m = 0 := by
      have hne : (10 : ℚ) ^ e ≠ 0 := zpow_ne_zero e (by norm_num)
      exact_mod_cast (mul_eq_zero.mp hvalue).resolve_right hne
    rw [Binary64.ofDecimal, if_pos hm, ← Binary64.magnitude_of_significand hzero, hself]
  · have hcovers := Decimal.covers_ofDouble hzero
    have hpos := Decimal.digits_ofDouble_pos hzero
    have hread := readsAs_layOut (Bytes.digits_ofNat (Decimal.ofDouble x).digits)
      (Bytes.ofNat_ne_nil _) (Bytes.head?_ofNat hpos)
      ((Bytes.ofNat (Decimal.ofDouble x).digits).length + (Decimal.ofDouble x).exponent)
    rw [Bytes.natOfDigits_ofNat, add_sub_cancel_left] at hread
    rw [if_neg hzero, List.append_assoc]
    refine readNumber_of_readsAs hread (fun m e hvalue => ?_) hr
    rw [Decimal.value, ← hvalue] at hcovers
    rw [Binary64.ofDecimal_of_covers x.negative hzero hfinite hcovers, hself]

/-- **A 64-bit integer is read back from its numeral.** -/
theorem readNumber_ofInt {n : Int} (hlow : -0x8000000000000000 ≤ n)
    (hhigh : n < 0x10000000000000000) (hr : Ends r) :
    readNumber (Bytes.ofInt n ++ r) = .ok (.int n, r) := by
  have htext : Bytes.ofInt n ++ r = sign (decide (n < 0)) ++ (Bytes.ofNat n.natAbs ++ r) := by
    unfold Bytes.ofInt sign
    by_cases hn : n < 0
    · simp [hn]
    · simp [hn]
  have hwhole := readWhole_of_digits (Bytes.digits_ofNat n.natAbs) (Bytes.ofNat_ne_nil _)
    (Bytes.ofNat_noLeadingZero _) hr.noDigit
  rw [htext]
  refine readNumber_of_parts hwhole hr.readFraction hr.readExponent ?_
  unfold Numeral.toJson
  simp only [Option.getD_none, List.append_nil, Bytes.natOfDigits_ofNat]
  by_cases hn : n < 0
  · rw [if_pos]
    · congr 2
      omega
    · simp [hn]
      omega
  · rw [if_neg, if_pos]
    · congr 2
      omega
    · simp [hn]
      omega
    · simp [hn]

end Json

end ChatRelay
