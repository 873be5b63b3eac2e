import ChatRelay.Options
import ChatRelay.Proofs.Fallible
import ChatRelay.Proofs.NumberRoundTrip

/-!
# Numbers in the settings

Four settings are positive integers, written as texts. A text is read as a 64-bit integer, checked,
and then stored as what the option is: a double, a natural number or a 32-bit word.

* `Options.Denotes` -- the texts that are written for an integer; `integer?_eq_some_iff` says that
  just these are read as it;
* `Options.Acceptable`, `Options.Given` -- what passes the check, and which text counts;
* `Binary64.isPositive_ofInt`, `Word.toInt32_eq_self_iff` -- what storing makes of a positive
  integer: a double may round it, and a word keeps it exactly when it is below `2 ^ 31`;
* `Options.load_keeps_numbers` -- what loading makes of the numbers, for every file and every
  environment, and exactly when it keeps the default for completion tokens;
* `Options.maxTokens_cut` -- two numbers that it does not keep.
-/

namespace ChatRelay

/-! ## 1. Numerals -/

namespace Bytes

/-- The decimal numeral of a number with zeros before it. -/
def padded (zeros n : Nat) : Bytes :=
  List.replicate zeros 0x30 ++ ofNat n

theorem digits_padded (zeros n : Nat) : Digits (padded zeros n) :=
  (digits_replicate zeros).append (digits_ofNat n)

theorem padded_ne_nil (zeros n : Nat) : padded zeros n ≠ [] :=
  fun h => ofNat_ne_nil n (List.append_eq_nil_iff.mp h).2

theorem natOfDigits_padded (zeros n : Nat) : natOfDigits (padded zeros n) = n := by
  rw [padded, natOfDigits_append, natOfDigits_replicate, Nat.zero_mul, Nat.zero_add,
    natOfDigits_ofNat]

/-- A digit is the digit of its value. -/
theorem digit_of_isDigit {b : UInt8} (hb : isDigit b = true) :
    b.toNat - 0x30 < 10 ∧ digit (b.toNat - 0x30) = b := by
  rw [isDigit, Bool.and_eq_true, decide_eq_true_iff, decide_eq_true_iff, UInt8.le_iff_toNat_le,
    UInt8.le_iff_toNat_le] at hb
  have hlow : (0x30 : UInt8).toNat = 0x30 := rfl
  have hhigh : (0x39 : UInt8).toNat = 0x39 := rfl
  have hlt : b.toNat - 0x30 < 10 := by omega
  refine ⟨hlt, UInt8.toNat_inj.mp ?_⟩
  rw [toNat_digit hlt]
  omega

theorem natOfDigits_concat (digits : Bytes) (b : UInt8) :
    natOfDigits (digits ++ [b]) = natOfDigits digits * 10 + (b.toNat - 0x30) := by
  rw [natOfDigits, List.foldl_append]
  rfl

theorem ofNat_of_lt {d : Nat} (hd : d < 10) : ofNat d = [digit d] := by
  rw [ofNat, if_pos hd]

/-- **One digit more** is one behind the numeral, or, behind zeros alone, makes one of them a zero
    before it. -/
theorem exists_padded_concat (zeros n : Nat) {d : Nat} (hd : d < 10) :
    ∃ zeros', padded zeros n ++ [digit d] = padded zeros' (n * 10 + d) := by
  rcases Nat.eq_zero_or_pos n with rfl | hpos
  · refine ⟨zeros + 1, ?_⟩
    have hzero : ofNat 0 = [0x30] := ofNat_of_lt (by decide)
    rw [Nat.zero_mul, Nat.zero_add, padded, padded, hzero, ofNat_of_lt hd, List.replicate_succ']
  · refine ⟨zeros, ?_⟩
    have hmore : ¬ n * 10 + d < 10 := by omega
    have hdiv : (n * 10 + d) / 10 = n := by omega
    have hmod : (n * 10 + d) % 10 = d := by omega
    have hnumeral : ofNat (n * 10 + d) = ofNat n ++ [digit d] := by
      rw [ofNat, if_neg hmore, hdiv, hmod]
    rw [padded, padded, hnumeral, List.append_assoc]

/-- **Digits are a numeral with zeros before it**, whatever they are: by induction from behind. -/
theorem exists_padded {digits : Bytes} (h : Digits digits) (hne : digits ≠ []) :
    ∃ zeros, digits = padded zeros (natOfDigits digits) := by
  induction digits using List.reverseRecOn with
  | nil => exact absurd rfl hne
  | append_singleton digits b ih =>
    obtain ⟨hdigits, hb⟩ := List.forall_mem_append.mp h
    obtain ⟨hlt, hdigit⟩ := digit_of_isDigit (hb b (List.mem_singleton_self b))
    rw [natOfDigits_concat]
    by_cases hnil : digits = []
    · subst hnil
      refine ⟨0, ?_⟩
      show [b] = ofNat (0 * 10 + (b.toNat - 0x30))
      rw [Nat.zero_mul, Nat.zero_add, ofNat_of_lt hlt, hdigit]
    · obtain ⟨zeros, hzeros⟩ := ih hdigits hnil
      obtain ⟨zeros', hmore⟩ := exists_padded_concat zeros (natOfDigits digits) hlt
      rw [hdigit, ← hzeros] at hmore
      exact ⟨zeros', hmore⟩

theorem numeral?_eq_some_iff {digits : Bytes} {n : Nat} :
    numeral? digits = some n ↔ ∃ zeros, digits = padded zeros n := by
  have haccepted : (digits.isEmpty || !digits.all isDigit) = false ↔
      digits ≠ [] ∧ Digits digits := by
    rw [Bool.or_eq_false_iff, List.isEmpty_eq_false_iff, Bool.not_eq_false', List.all_eq_true]
    rfl
  constructor
  · intro h
    rw [numeral?] at h
    split at h
    · cases h
    · rename_i hdigits
      obtain ⟨hne, hdigits⟩ := haccepted.mp (Bool.eq_false_iff.mpr hdigits)
      rw [← Option.some.inj h]
      exact exists_padded hdigits hne
  · rintro ⟨zeros, rfl⟩
    have hdigits := haccepted.mpr ⟨padded_ne_nil zeros n, digits_padded zeros n⟩
    rw [numeral?, hdigits, natOfDigits_padded]
    rfl

end Bytes

/-! ## 2. Words and doubles -/

/-- **A positive number is a 32-bit word as it is** exactly when it is within the range of words. -/
theorem Word.toInt32_eq_self_iff {n : Int} (hpos : 0 < n) : toInt32 n = n ↔ n < 0x80000000 := by
  constructor
  · intro h
    have hlt : toInt32 n < (0x100000000 + 1) / 2 := Int.bmod_lt (by decide)
    rw [h] at hlt
    omega
  · exact fun h => toInt32_eq (by omega) h

namespace Binary64

variable {x : Binary64} {num den : Nat} {n : Int}

/-- The double is a number above zero. -/
structure IsPositive (x : Binary64) : Prop where
  not_negative : x.negative = false
  significand_pos : 0 < x.significand
  finite : x.magnitude < infinity

theorem roundDiv_le (num den : Nat) : roundDiv num den ≤ num / den + 1 := by
  unfold roundDiv
  dsimp only
  split_ifs <;> omega

/-- Where the leading bit of a quotient from 1 up to `2 ^ 63` is. -/
theorem unitExponent_bounds (hden : 0 < den) (hlow : den ≤ num)
    (hhigh : num < 0x8000000000000000 * den) :
    -53 < unitExponent num den ∧ unitExponent num den < 11 := by
  have hden' : (0 : ℚ) < den := by exact_mod_cast hden
  have hone : (2 : ℚ) ^ (0 : ℤ) ≤ num / den := by
    rw [zpow_zero]
    exact (one_le_div hden').mpr (by exact_mod_cast hlow)
  have hbound : (num / den : ℚ) < 2 ^ (63 : ℤ) := by
    rw [div_lt_iff₀ hden']
    have hcast : (num : ℚ) < 0x8000000000000000 * den := by exact_mod_cast hhigh
    norm_num at hcast ⊢
    exact hcast
  obtain ⟨hunit, hunit'⟩ := unitExponent_spec (hden.trans_le hlow) hden
  have habove := (zpow_lt_zpow_iff_right₀ one_lt_two).mp (hone.trans_lt hunit')
  have hbelow := (zpow_lt_zpow_iff_right₀ one_lt_two).mp (hunit.trans_lt hbound)
  omega

/-- **The significand has 53 bits**, before it is rounded. -/
theorem scaled_lt (hnum : 0 < num) (hden : 0 < den) :
    num * Nat.pow 2 (-unitExponent num den).toNat / (den * Nat.pow 2 (unitExponent num den).toNat) <
      2 * exponentWeight := by
  have hunit := (unitExponent_spec hnum hden).2
  generalize unitExponent num den = q at hunit ⊢
  have hpos : 0 < den * Nat.pow 2 q.toNat := Nat.mul_pos hden (Nat.pow_pos (by decide))
  have hpos' : (0 : ℚ) < (den * Nat.pow 2 q.toNat : ℕ) := by exact_mod_cast hpos
  have hratio : ((num * Nat.pow 2 (-q).toNat : ℕ) : ℚ) / (den * Nat.pow 2 q.toNat : ℕ) <
      (2 * exponentWeight : ℕ) := by
    rw [ratio_scaled, div_lt_iff₀ (by positivity)]
    rw [zpow_add₀ two_ne_zero] at hunit
    exact hunit.trans_eq (by unfold exponentWeight; norm_num)
  rw [div_lt_iff₀ hpos'] at hratio
  rw [Nat.div_lt_iff_lt_mul hpos]
  exact_mod_cast hratio

/-- A quotient from 1 up to `2 ^ 63` is neither rounded to zero nor beyond the largest double. -/
theorem magnitudeOfRatio_bounds (hden : 0 < den) (hlow : den ≤ num)
    (hhigh : num < 0x8000000000000000 * den) :
    0 < magnitudeOfRatio num den ∧ magnitudeOfRatio num den < infinity := by
  obtain ⟨hq, hq'⟩ := unitExponent_bounds hden hlow hhigh
  have hscaled := scaled_lt (hden.trans_le hlow) hden
  rw [magnitudeOfRatio, max_eq_left (by omega)]
  generalize unitExponent num den = q at hq hq' hscaled ⊢
  have hround := roundDiv_le (num * Nat.pow 2 (-q).toNat) (den * Nat.pow 2 q.toNat)
  generalize roundDiv _ _ = r at hround ⊢
  generalize num * Nat.pow 2 (-q).toNat / (den * Nat.pow 2 q.toNat) = s at hscaled hround
  obtain ⟨k, hk⟩ : ∃ k : Nat, (q + 1074).toNat = k := ⟨_, rfl⟩
  have hk' : 1022 ≤ k ∧ k ≤ 1084 := by omega
  rw [hk]
  unfold infinity exponentWeight at *
  omega

theorem isPositive_ofMagnitude {m : Nat} (hpos : 0 < m) (hlt : m < infinity) :
    (ofMagnitude false m).IsPositive := by
  have hsign : m < signWeight := hlt.trans (by decide)
  have hmagnitude := magnitude_ofMagnitude false hsign
  refine ⟨?_, Nat.pos_of_ne_zero fun hzero => ?_, hmagnitude.trans_lt hlt⟩
  · rw [negative, toNat_bits_ofMagnitude false hsign]
    simpa using hsign
  · rw [magnitude_of_significand hzero] at hmagnitude
    omega

/-- **A positive 64-bit integer is a positive double**, rounded or not. -/
theorem isPositive_ofInt (hpos : 0 < n) (hlt : n < 0x8000000000000000) :
    (ofInt n).IsPositive := by
  obtain ⟨m, rfl⟩ := Int.eq_ofNat_of_zero_le hpos.le
  have hm : 0 < m := by omega
  have hcount : digitCount m ≤ 19 := by
    refine (Nat.length_toDigits_le_iff (by decide) (by decide)).mpr ?_
    omega
  obtain ⟨hmagnitude, hfinite⟩ : 0 < magnitudeOfRatio (m * Nat.pow 10 (0 : Int).toNat)
      (Nat.pow 10 (-(0 : Int)).toNat) ∧
      magnitudeOfRatio (m * Nat.pow 10 (0 : Int).toNat) (Nat.pow 10 (-(0 : Int)).toNat) <
        infinity :=
    magnitudeOfRatio_bounds (by decide) (by simp; omega) (by simp; omega)
  have hdecimal : ofDecimal false m 0 = some (ofMagnitude false
      (magnitudeOfRatio (m * Nat.pow 10 (0 : Int).toNat) (Nat.pow 10 (-(0 : Int)).toNat))) := by
    rw [ofDecimal, if_neg (by omega), if_neg (by omega), if_neg (by omega)]
    exact if_pos hfinite
  have hsign : decide ((m : Int) < 0) = false := decide_eq_false (by omega)
  rw [ofInt, hsign, Int.natAbs_natCast, hdecimal]
  exact isPositive_ofMagnitude hmagnitude hfinite

end Binary64

/-! ## 3. Texts of integers -/

namespace Options

/-- **The text is written for the integer**: blanks, a sign if there is one, and the decimal
    numeral, with any zeros before it. -/
inductive Denotes : Bytes → Int → Prop where
  | plain {blanks : Bytes} (spaces : ∀ b ∈ blanks, isSpace b = true) (zeros n : Nat) :
      Denotes (blanks ++ Bytes.padded zeros n) n
  | plus {blanks : Bytes} (spaces : ∀ b ∈ blanks, isSpace b = true) (zeros n : Nat) :
      Denotes (blanks ++ 0x2B :: Bytes.padded zeros n) n
  | minus {blanks : Bytes} (spaces : ∀ b ∈ blanks, isSpace b = true) (zeros n : Nat) :
      Denotes (blanks ++ 0x2D :: Bytes.padded zeros n) (-n)

variable {text blanks : Bytes} {n : Int}

/-- **A sign or a digit is looked at**, whatever blanks stand before it. -/
theorem integer?_append (hblanks : ∀ b ∈ blanks, isSpace b = true) {b : UInt8}
    (hb : isSpace b = false) (rest : Bytes) :
    integer? (blanks ++ b :: rest) =
      if b = 0x2D then (Bytes.numeral? rest).map fun (n : Nat) => -(n : Int)
      else if b = 0x2B then (Bytes.numeral? rest).map fun (n : Nat) => (n : Int)
      else (Bytes.numeral? (b :: rest)).map fun (n : Nat) => (n : Int) := by
  rw [integer?, List.dropWhile_append_of_pos hblanks,
    List.dropWhile_cons_of_neg (Bool.eq_false_iff.mp hb)]
  simp only [List.head?_cons, Option.some.injEq, List.tail_cons]
  by_cases hminus : b = 0x2D
  · rw [if_pos hminus, if_pos hminus]
  · by_cases hplus : b = 0x2B
    · rw [if_neg hminus, if_neg hminus, if_pos hplus, if_pos hplus]
    · rw [if_neg hminus, if_neg hminus, if_neg hplus, if_neg hplus]

/-- A numeral begins with a digit, which is neither a blank nor a sign. -/
theorem exists_padded_eq_cons (zeros n : Nat) : ∃ b rest, Bytes.padded zeros n = b :: rest ∧
    isSpace b = false ∧ b ≠ 0x2D ∧ b ≠ 0x2B := by
  obtain ⟨b, rest, hpadded⟩ := List.exists_cons_of_ne_nil (Bytes.padded_ne_nil zeros n)
  have hb : Bytes.isDigit b = true :=
    Bytes.digits_padded zeros n b (hpadded ▸ List.mem_cons_self)
  obtain ⟨hlt, hdigit⟩ := Bytes.digit_of_isDigit hb
  have hall : ∀ d < 10, isSpace (Bytes.digit d) = false ∧
      Bytes.digit d ≠ 0x2D ∧ Bytes.digit d ≠ 0x2B := by decide
  exact ⟨b, rest, hpadded, hdigit ▸ hall _ hlt⟩

theorem integer?_of_denotes (h : Denotes text n) : integer? text = some n := by
  cases h with
  | plain spaces zeros n =>
    obtain ⟨b, rest, hpadded, hspace, hminus, hplus⟩ := exists_padded_eq_cons zeros n
    rw [hpadded, integer?_append spaces hspace, if_neg hminus, if_neg hplus, ← hpadded,
      Bytes.numeral?_eq_some_iff.mpr ⟨zeros, rfl⟩]
    rfl
  | plus spaces zeros n =>
    rw [integer?_append spaces (by decide), if_neg (by decide), if_pos rfl,
      Bytes.numeral?_eq_some_iff.mpr ⟨zeros, rfl⟩]
    rfl
  | minus spaces zeros n =>
    rw [integer?_append spaces (by decide), if_pos rfl,
      Bytes.numeral?_eq_some_iff.mpr ⟨zeros, rfl⟩]
    rfl

theorem denotes_of_integer? (h : integer? text = some n) : Denotes text n := by
  have htext : text.takeWhile isSpace ++ text.dropWhile isSpace = text :=
    List.takeWhile_append_dropWhile
  have hspaces : ∀ b ∈ text.takeWhile isSpace, isSpace b = true :=
    List.all_eq_true.mp List.all_takeWhile
  cases hrest : text.dropWhile isSpace with
  | nil =>
    rw [integer?, hrest] at h
    cases h
  | cons b rest =>
    have hb : isSpace b = false := by
      have hhead := List.head?_dropWhile_not isSpace text
      rw [hrest] at hhead
      simpa using hhead
    rw [← htext, hrest] at h ⊢
    rw [integer?_append hspaces hb] at h
    split_ifs at h with hminus hplus
    · obtain ⟨m, hm, rfl⟩ := Option.map_eq_some_iff.mp h
      obtain ⟨zeros, rfl⟩ := Bytes.numeral?_eq_some_iff.mp hm
      exact hminus ▸ .minus hspaces zeros m
    · obtain ⟨m, hm, rfl⟩ := Option.map_eq_some_iff.mp h
      obtain ⟨zeros, rfl⟩ := Bytes.numeral?_eq_some_iff.mp hm
      exact hplus ▸ .plus hspaces zeros m
    · obtain ⟨m, hm, rfl⟩ := Option.map_eq_some_iff.mp h
      obtain ⟨zeros, hzeros⟩ := Bytes.numeral?_eq_some_iff.mp hm
      exact hzeros ▸ .plain hspaces zeros m

/-- **An integer is read off exactly the texts that are written for it.** -/
theorem integer?_eq_some_iff : integer? text = some n ↔ Denotes text n :=
  ⟨denotes_of_integer?, integer?_of_denotes⟩

theorem Denotes.unique {m : Int} (h : Denotes text n) (h' : Denotes text m) : n = m := by
  rw [← integer?_eq_some_iff] at h h'
  exact Option.some.inj (h.symm.trans h')

/-! ## 4. Positive numbers -/

variable {env settings : Table Bytes Bytes} {key : Bytes}

/-- The text is written for a positive 64-bit integer. -/
def Acceptable (text : Bytes) (n : Int) : Prop :=
  Denotes text n ∧ 0 < n ∧ n < 0x8000000000000000

/-- What a setting that should be a positive integer is refused with. -/
def refusal (key : Bytes) : RelayError :=
  .misconfigured (Bytes.ofString "Expected a positive integer for " ++ key) key

theorem filter_integer?_eq_some_iff :
    ((integer? text).filter fun n => 0 < n && n < 0x8000000000000000) = some n ↔
      Acceptable text n := by
  rw [Option.filter_eq_some_iff, integer?_eq_some_iff, Bool.and_eq_true, decide_eq_true_iff,
    decide_eq_true_iff]
  rfl

theorem positive?_eq_ok_iff : positive? key text = .ok n ↔ Acceptable text n := by
  rw [← filter_integer?_eq_some_iff, positive?]
  split
  · rename_i m hm
    rw [hm, Except.ok.injEq, Option.some.injEq]
  · rename_i hnone
    rw [hnone]
    exact iff_of_false (fun h => by cases h) (fun h => by cases h)

theorem positive?_eq_error_iff {e : RelayError} :
    positive? key text = .error e ↔ e = refusal key ∧ ∀ n, ¬ Acceptable text n := by
  simp only [← filter_integer?_eq_some_iff]
  rw [positive?]
  split
  · rename_i m hm
    exact iff_of_false (fun h => by cases h) fun h => h.2 m hm
  · rename_i hnone
    rw [Except.error.injEq, hnone]
    exact ⟨fun h => ⟨h.symm, fun n h => by cases h⟩, fun h => h.1.symm⟩

/-! ## 5. Loading -/

/-- **The text that a setting is given**: by the environment, or else by the file. -/
inductive Given (env settings : Table Bytes Bytes) (key : Bytes) : Bytes → Prop where
  | environment {text : Bytes} (found : Table.find? env key = some text) :
      Given env settings key text
  | file {text : Bytes} (unset : Table.find? env key = none)
      (found : Table.find? settings key = some text) : Given env settings key text

theorem lookUp_eq_some_iff : lookUp env settings key = some text ↔ Given env settings key text := by
  rw [lookUp, Option.or_eq_some_iff]
  constructor
  · rintro (h | ⟨hunset, h⟩)
    · exact .environment h
    · exact .file hunset h
  · rintro (h | ⟨hunset, h⟩)
    · exact .inl h
    · exact .inr ⟨hunset, h⟩

/-- **What the number of a setting may be read as**: nothing when it is not given, and else the
    positive integer that its text is written for. -/
inductive Says (env settings : Table Bytes Bytes) (key : Bytes) : Option Int → Prop where
  | nothing (none_given : ∀ text, ¬ Given env settings key text) : Says env settings key none
  | integer {text : Bytes} {n : Int} (given : Given env settings key text)
      (acceptable : Acceptable text n) : Says env settings key (some n)

theorem number_says {said : Option Int} (h : number env settings key = .ok said) :
    Says env settings key said := by
  rw [number] at h
  split at h
  · rename_i text htext
    obtain ⟨n, hn, rfl⟩ := map_eq_ok_iff.mp h
    exact .integer (lookUp_eq_some_iff.mp htext) (positive?_eq_ok_iff.mp hn)
  · rename_i hnone
    cases h
    refine .nothing fun text hgiven => ?_
    rw [lookUp_eq_some_iff.mpr hgiven] at hnone
    cases hnone

theorem number_refuses {e : RelayError} (h : number env settings key = .error e) :
    e = refusal key ∧ ∃ text, Given env settings key text ∧ ∀ n, ¬ Acceptable text n := by
  rw [number] at h
  split at h
  · rename_i text htext
    obtain ⟨he, hnone⟩ := positive?_eq_error_iff.mp (map_eq_error_iff.mp h)
    exact ⟨he, text, lookUp_eq_some_iff.mp htext, hnone⟩
  · cases h

/-- The settings that are numbers, in the order in which they are read. -/
def numberKeys : List Bytes :=
  ["LLMRELAY_TIMEOUT", "LLMRELAY_EVENT_BUFFER", "LLMRELAY_MAX_LINE_BYTES",
    "LLMRELAY_DEFAULT_MAX_TOKENS"]

/-- **Loading succeeds when all four numbers can be read**, and gives the options with them. -/
theorem exists_numbers_of_load {options : Options} (h : load env settings = .ok options) :
    ∃ timeout eventCapacity maxLineBytes defaultMaxTokens,
      Says env settings "LLMRELAY_TIMEOUT" timeout ∧
      Says env settings "LLMRELAY_EVENT_BUFFER" eventCapacity ∧
      Says env settings "LLMRELAY_MAX_LINE_BYTES" maxLineBytes ∧
      Says env settings "LLMRELAY_DEFAULT_MAX_TOKENS" defaultMaxTokens ∧
      options = ofNumbers env settings timeout eventCapacity maxLineBytes defaultMaxTokens := by
  rw [load] at h
  obtain ⟨timeout, htimeout, h⟩ := bind_eq_ok_iff.mp h
  obtain ⟨eventCapacity, hcapacity, h⟩ := bind_eq_ok_iff.mp h
  obtain ⟨maxLineBytes, hbytes, h⟩ := bind_eq_ok_iff.mp h
  obtain ⟨defaultMaxTokens, htokens, h⟩ := bind_eq_ok_iff.mp h
  exact ⟨timeout, eventCapacity, maxLineBytes, defaultMaxTokens, number_says htimeout,
    number_says hcapacity, number_says hbytes, number_says htokens, (Except.ok.inj h).symm⟩

/-- **Loading fails for a number that cannot be read**, and says which setting it is. -/
theorem exists_key_of_load_error {e : RelayError} (h : load env settings = .error e) :
    ∃ key ∈ numberKeys, e = refusal key ∧
      ∃ text, Given env settings key text ∧ ∀ n, ¬ Acceptable text n := by
  have hmem : ∀ key ∈ numberKeys, number env settings key = .error e →
      ∃ key ∈ numberKeys, e = refusal key ∧
        ∃ text, Given env settings key text ∧ ∀ n, ¬ Acceptable text n :=
    fun key hkey herror => ⟨key, hkey, number_refuses herror⟩
  rw [load] at h
  obtain h | ⟨_, -, h⟩ := bind_eq_error_iff.mp h
  · exact hmem _ (by simp [numberKeys]) h
  obtain h | ⟨_, -, h⟩ := bind_eq_error_iff.mp h
  · exact hmem _ (by simp [numberKeys]) h
  obtain h | ⟨_, -, h⟩ := bind_eq_error_iff.mp h
  · exact hmem _ (by simp [numberKeys]) h
  obtain h | ⟨_, -, h⟩ := bind_eq_error_iff.mp h
  · exact hmem _ (by simp [numberKeys]) h
  · cases h

/-! ## 6. Numbers that are kept -/

theorem Given.unique {text' : Bytes} (h : Given env settings key text)
    (h' : Given env settings key text') : text = text' := by
  rw [← lookUp_eq_some_iff] at h h'
  exact Option.some.inj (h.symm.trans h')

/-- **The number of a setting is kept**: it is positive, and the integer that is written for it
    whenever one is given. -/
def Keeps (env settings : Table Bytes Bytes) (key : Bytes) (value : Int) : Prop :=
  0 < value ∧ ∀ text, Given env settings key text → Denotes text value

variable {said : Option Int}

theorem Says.exists_acceptable (h : Says env settings key said)
    (hgiven : Given env settings key text) : ∃ n, Acceptable text n := by
  cases h with
  | nothing none_given => exact absurd hgiven (none_given text)
  | integer given acceptable => exact ⟨_, hgiven.unique given ▸ acceptable⟩

/-- A number that is stored as a natural number is kept, and so is a positive default. -/
theorem Says.keeps_toNat (h : Says env settings key said) {fallback : Nat} (hpos : 0 < fallback) :
    Keeps env settings key ((said.map Int.toNat).getD fallback : Nat) := by
  cases h with
  | nothing none_given =>
    exact ⟨by exact_mod_cast hpos, fun text hgiven => absurd hgiven (none_given text)⟩
  | @integer text n given acceptable =>
    obtain ⟨hdenotes, hn, -⟩ := acceptable
    have hcast : (((some n).map Int.toNat).getD fallback : Nat) = n := Int.toNat_of_nonneg hn.le
    rw [hcast]
    exact ⟨hn, fun text' hgiven => hgiven.unique given ▸ hdenotes⟩

theorem Says.isPositive_timeout (h : Says env settings key said) {fallback : Binary64}
    (hpos : fallback.IsPositive) : ((said.map Binary64.ofInt).getD fallback).IsPositive := by
  cases h with
  | nothing => exact hpos
  | integer _ acceptable =>
    rw [Option.map_some, Option.getD_some]
    exact Binary64.isPositive_ofInt acceptable.2.1 acceptable.2.2

/-- **A number that is stored as a 32-bit word** is its low bits. -/
theorem Says.toInt32_eq (h : Says env settings key said) (fallback : Int)
    (hgiven : Given env settings key text) (hdenotes : Denotes text n) :
    (said.map Word.toInt32).getD fallback = Word.toInt32 n := by
  cases h with
  | nothing none_given => exact absurd hgiven (none_given text)
  | integer given acceptable =>
    have hsame := acceptable.1
    rw [given.unique hgiven] at hsame
    rw [hsame.unique hdenotes]
    rfl

/-- So it is kept exactly when it is within the range of words. -/
theorem Says.keeps_toInt32_iff (h : Says env settings key said) {fallback : Int}
    (hpos : 0 < fallback) :
    Keeps env settings key ((said.map Word.toInt32).getD fallback) ↔
      ∀ text n, Given env settings key text → Denotes text n → n < 0x80000000 := by
  cases h with
  | nothing none_given =>
    exact iff_of_true ⟨hpos, fun text hgiven => absurd hgiven (none_given text)⟩
      fun text _ hgiven => absurd hgiven (none_given text)
  | @integer text n given acceptable =>
    obtain ⟨hdenotes, hn, -⟩ := acceptable
    show Keeps env settings key (Word.toInt32 n) ↔ _
    constructor
    · intro hkeeps text' n' hgiven hdenotes'
      have hsame : n' = n := hdenotes'.unique (hgiven.unique given ▸ hdenotes)
      rw [hsame, ← Word.toInt32_eq_self_iff hn]
      exact (hkeeps.2 text given).unique hdenotes
    · intro hsmall
      rw [(Word.toInt32_eq_self_iff hn).mpr (hsmall text n given hdenotes)]
      exact ⟨hn, fun text' hgiven => hgiven.unique given ▸ hdenotes⟩

theorem isPositive_default_timeout : default.timeout.IsPositive := by
  have hdefault : default.timeout = Binary64.ofInt 720 := rfl
  rw [hdefault]
  exact Binary64.isPositive_ofInt (by decide) (by decide)

/-- **What becomes of the numbers in the settings**, for every content of the file and every
    environment. Loading fails, with the name of a setting whose text is not written for a positive
    64-bit integer; or there is no such setting, and the timeout is positive, the capacity and the
    line limit are kept, and the default for completion tokens is the low 32 bits of what is written
    for it, so that it is kept exactly when no integer from `2 ^ 31` on is written. -/
theorem load_keeps_numbers (env : Table Bytes Bytes) (content : Bytes) :
    let settings := readSettings content
    (∃ key ∈ numberKeys, load env settings = .error (refusal key) ∧
      ∃ text, Given env settings key text ∧ ∀ n, ¬ Acceptable text n) ∨
    ∃ options, load env settings = .ok options ∧
      (∀ key ∈ numberKeys, ∀ text, Given env settings key text → ∃ n, Acceptable text n) ∧
      options.timeout.IsPositive ∧
      Keeps env settings "LLMRELAY_EVENT_BUFFER" options.eventCapacity ∧
      Keeps env settings "LLMRELAY_MAX_LINE_BYTES" options.maxLineBytes ∧
      (∀ text n, Given env settings "LLMRELAY_DEFAULT_MAX_TOKENS" text → Denotes text n →
        options.defaultMaxTokens = Word.toInt32 n) ∧
      (Keeps env settings "LLMRELAY_DEFAULT_MAX_TOKENS" options.defaultMaxTokens ↔
        ∀ text n, Given env settings "LLMRELAY_DEFAULT_MAX_TOKENS" text → Denotes text n →
          n < 0x80000000) := by
  intro settings
  cases hload : load env settings with
  | error e =>
    obtain ⟨key, hkey, rfl, hrefused⟩ := exists_key_of_load_error hload
    exact .inl ⟨key, hkey, rfl, hrefused⟩
  | ok options =>
    obtain ⟨timeout, eventCapacity, maxLineBytes, defaultMaxTokens, htimeout, hcapacity, hbytes,
      htokens, rfl⟩ := exists_numbers_of_load hload
    refine .inr ⟨_, rfl, fun key hkey text hgiven => ?_,
      htimeout.isPositive_timeout isPositive_default_timeout, hcapacity.keeps_toNat (by decide),
      hbytes.keeps_toNat (by decide), fun text n hgiven hdenotes =>
        htokens.toInt32_eq default.defaultMaxTokens hgiven hdenotes,
      htokens.keeps_toInt32_iff (by decide)⟩
    simp only [numberKeys, List.mem_cons, List.not_mem_nil, or_false] at hkey
    obtain rfl | rfl | rfl | rfl := hkey
    · exact htimeout.exists_acceptable hgiven
    · exact hcapacity.exists_acceptable hgiven
    · exact hbytes.exists_acceptable hgiven
    · exact htokens.exists_acceptable hgiven

/-- **A number of more than 32 bits is cut**: what is written is 1 and a carry, or the least number
    that has the sign bit of a word, and both pass as positive integers. -/
theorem maxTokens_cut :
    Denotes "4294967297" 4294967297 ∧ Denotes "2147483648" 2147483648 ∧
    (load [] (readSettings "LLMRELAY_DEFAULT_MAX_TOKENS=4294967297\n")).toOption.map
      (·.defaultMaxTokens) = some 1 ∧
    (load [] (readSettings "LLMRELAY_DEFAULT_MAX_TOKENS=2147483648\n")).toOption.map
      (·.defaultMaxTokens) = some (-2147483648) :=
  ⟨integer?_eq_some_iff.mp (by decide), integer?_eq_some_iff.mp (by decide), by decide, by decide⟩

end Options

end ChatRelay
