import ChatRelay.Json.Reader
import ChatRelay.Proofs.Fallible
import ChatRelay.Proofs.JsonText

/-!
# The rules of the JSON reader

What the steps of the reader accept, one rule for each.

* `expect_eq_some_iff`, `readWord_eq_some_iff`, `readDigits_eq_ok_iff` -- of the small ones;
* `readValue_succ_iff`, `readItems_succ_iff`, `readFields_succ_iff` -- of the recursive ones, with
  what is left of the fuel;
* `parse?_eq_some_iff` -- of a whole text;
* `begins_of_readValue` -- the first byte tells a number and an object apart;
* `Compositional.of_parse?` -- what a value has from its parts holds of all that is read; so what is
  read can be written (`isText_of_parse?`).
-/

namespace ChatRelay.Json

variable {s q r : Bytes}

/-! ## 1. Words, strings and numbers -/

theorem expect_eq_some_iff {word : Bytes} : expect word s = some r ↔ s = word ++ r := by
  unfold expect
  constructor
  · intro h
    split at h
    · rename_i hprefix
      obtain ⟨t, rfl⟩ := List.isPrefixOf_iff_prefix.mp hprefix
      rw [List.drop_left, Option.some.injEq] at h
      rw [h]
    · cases h
  · intro heq
    subst heq
    rw [if_pos (List.isPrefixOf_iff_prefix.mpr (List.prefix_append word r)), List.drop_left]

theorem readWord_eq_some_iff {w : Json} :
    readWord s = some (w, r) ↔
      (w = .null ∧ s = Bytes.ofString "null" ++ r) ∨
        (w = .bool true ∧ s = Bytes.ofString "true" ++ r) ∨
          (w = .bool false ∧ s = Bytes.ofString "false" ++ r) := by
  have hword (word : Bytes) (value : Json) :
      (expect word s).map (value, ·) = some (w, r) ↔ w = value ∧ s = word ++ r := by
    simp only [Option.map_eq_some_iff, expect_eq_some_iff, Prod.mk.injEq]
    constructor
    · intro h
      obtain ⟨r', hs, rfl, rfl⟩ := h
      exact ⟨rfl, hs⟩
    · intro h
      obtain ⟨rfl, hs⟩ := h
      exact ⟨r, hs, rfl, rfl⟩
  unfold readWord
  simp only [Option.or_eq_some_iff, hword]
  constructor
  · intro h
    rcases h with h | ⟨-, h | ⟨-, h⟩⟩
    · exact Or.inl h
    · exact Or.inr (Or.inl h)
    · exact Or.inr (Or.inr h)
  · -- the three words begin with different letters
    intro h
    rcases h with h | h | h
    · exact Or.inl h
    · exact Or.inr ⟨by rw [h.2]; rfl, Or.inl h⟩
    · exact Or.inr ⟨by rw [h.2]; rfl, Or.inr ⟨by rw [h.2]; rfl, h⟩⟩

/-- Whether a value that begins with the byte is no word. -/
def BeginsNoWord (b : UInt8) : Prop :=
  b ≠ Bytes.ascii 'n' ∧ b ≠ Bytes.ascii 't' ∧ b ≠ Bytes.ascii 'f'

instance (b : UInt8) : Decidable (BeginsNoWord b) :=
  inferInstanceAs (Decidable (_ ∧ _ ∧ _))

theorem readWord_cons {b : UInt8} (h : BeginsNoWord b) : readWord (b :: s) = none := by
  rw [Option.eq_none_iff_forall_ne_some]
  intro read hword
  obtain ⟨w, r⟩ := read
  rcases readWord_eq_some_iff.mp hword with ⟨-, hs⟩ | ⟨-, hs⟩ | ⟨-, hs⟩
  · exact h.1 (List.cons.inj hs).1
  · exact h.2.1 (List.cons.inj hs).1
  · exact h.2.2 (List.cons.inj hs).1

theorem valid_of_readString {content : Bytes} (h : readString s = .ok (content, r)) :
    Utf8.valid content = true := by
  unfold readString at h
  split at h
  · split at h
    · cases h
      assumption
    · cases h
  · cases h

theorem readDigits_eq_ok_iff {digits : Bytes} :
    readDigits s = .ok (digits, r) ↔
      digits ≠ [] ∧ s.takeWhile Bytes.isDigit = digits ∧ s.dropWhile Bytes.isDigit = r := by
  unfold readDigits
  split
  · rename_i hnone
    rw [hnone]
    constructor
    · intro h
      cases h
    · intro h
      obtain ⟨hne, rfl, -⟩ := h
      exact absurd rfl hne
  · rename_i hne
    constructor
    · intro h
      cases h
      exact ⟨hne, rfl, rfl⟩
    · intro h
      obtain ⟨-, rfl, rfl⟩ := h
      rfl

/-- **What a number is read as**: an integer of 64 bits, or the double nearest to a decimal. -/
theorem Numeral.toJson_cases {n : Numeral} {j : Json} (h : n.toJson = .ok j) :
    (∃ i : Int, -0x8000000000000000 ≤ i ∧ i < 0x10000000000000000 ∧ j = .int i) ∨
      ∃ m e x, Binary64.ofDecimal n.negative m e = some x ∧ j = .double x := by
  unfold Numeral.toJson at h
  dsimp only at h
  split at h
  · rename_i hnegative
    cases h
    rw [Bool.and_eq_true, Bool.and_eq_true, decide_eq_true_iff] at hnegative
    exact .inl ⟨_, by omega, by omega, rfl⟩
  · split at h
    · rename_i hpositive
      cases h
      rw [Bool.and_eq_true, decide_eq_true_iff] at hpositive
      exact .inl ⟨_, by omega, by omega, rfl⟩
    · split at h
      · rename_i x hx
        cases h
        exact .inr ⟨_, _, x, hx, rfl⟩
      · cases h

theorem readNumber_cases {j : Json} (h : readNumber s = .ok (j, r)) :
    (∃ i : Int, -0x8000000000000000 ≤ i ∧ i < 0x10000000000000000 ∧ j = .int i) ∨
      ∃ negative m e x, Binary64.ofDecimal negative m e = some x ∧ j = .double x := by
  rw [readNumber, bind_eq_ok_iff] at h
  obtain ⟨_, -, h⟩ := h
  obtain ⟨_, -, h⟩ := bind_eq_ok_iff.mp h
  obtain ⟨_, -, h⟩ := bind_eq_ok_iff.mp h
  obtain ⟨j', hvalue, h⟩ := bind_eq_ok_iff.mp h
  cases h
  obtain hint | ⟨m, e, x, hdouble⟩ := Numeral.toJson_cases hvalue
  · exact .inl hint
  · exact .inr ⟨_, m, e, x, hdouble⟩

theorem isNumber_of_readNumber {j : Json} (h : readNumber s = .ok (j, r)) : j.isNumber = true := by
  obtain ⟨i, -, -, rfl⟩ | ⟨negative, m, e, x, -, rfl⟩ := readNumber_cases h <;> rfl

/-- A number begins with a digit or a minus sign. -/
def BeginsNumber (b : UInt8) : Prop :=
  b = 0x2D ∨ Bytes.isDigit b = true

instance (b : UInt8) : Decidable (BeginsNumber b) :=
  inferInstanceAs (Decidable (_ ∨ _))

theorem begins_of_readNumber {j : Json} (h : readNumber s = .ok (j, r)) :
    ∃ b t, s = b :: t ∧ BeginsNumber b := by
  rw [readNumber, bind_eq_ok_iff] at h
  obtain ⟨⟨whole, rest⟩, hwhole, -⟩ := h
  rw [readWhole, bind_eq_ok_iff] at hwhole
  obtain ⟨⟨digits, rest'⟩, hdigits, -⟩ := hwhole
  cases hsign : expect (Bytes.ofString "-") s with
  | some t => exact ⟨0x2D, t, expect_eq_some_iff.mp hsign, Or.inl rfl⟩
  | none =>
    rw [hsign, Option.getD_none, readDigits_eq_ok_iff] at hdigits
    obtain ⟨hne, rfl, -⟩ := hdigits
    cases s with
    | nil => exact absurd rfl hne
    | cons b t =>
      refine ⟨b, t, rfl, Or.inr ?_⟩
      by_cases hb : Bytes.isDigit b = true
      · exact hb
      · rw [List.takeWhile_cons_of_neg hb] at hne
        exact absurd rfl hne

theorem BeginsNumber.noWord {b : UInt8} (h : BeginsNumber b) : BeginsNoWord b := by
  rcases h with rfl | h
  · decide
  · refine ⟨?_, ?_, ?_⟩
    all_goals
      intro heq
      subst heq
      cases h

/-! ## 2. Values -/

/-- **The rules for a value**, by its first byte. -/
theorem readValue_succ_iff {n : Nat} {j : Json} :
    readValue (n + 1) s = .ok (j, r) ↔
      readWord s = some (j, r) ∨
        (∃ t content, s = 0x22 :: t ∧ readString t = .ok (content, r) ∧ j = .str content) ∨
        (∃ t, s = 0x5B :: t ∧
          (expect [0x5D] (skipBlanks t) = some r ∧ j = .arr [] ∨
            expect [0x5D] (skipBlanks t) = none ∧
              ∃ items, readItems n (skipBlanks t) = .ok (items, r) ∧ j = .arr items)) ∨
        (∃ t, s = 0x7B :: t ∧
          (expect [0x7D] (skipBlanks t) = some r ∧ j = .obj [] ∨
            expect [0x7D] (skipBlanks t) = none ∧
              ∃ fields, readFields n (skipBlanks t) = .ok (fields, r) ∧ j = object fields)) ∨
        readNumber s = .ok (j, r) := by
  constructor
  · intro h
    cases s with
    | nil => cases h
    | cons b t =>
      rw [readValue] at h
      split at h
      · rename_i w hword
        cases h
        exact Or.inl hword
      · refine Or.inr ?_
        split at h
        · rename_i hb
          obtain ⟨⟨content, r'⟩, hstring, h⟩ := map_eq_ok_iff.mp h
          cases h
          exact Or.inl ⟨t, content, by rw [hb], hstring, rfl⟩
        · split at h
          · rename_i hb
            refine Or.inr (Or.inl ⟨t, by rw [hb], ?_⟩)
            split at h
            · rename_i hclose
              cases h
              exact Or.inl ⟨hclose, rfl⟩
            · rename_i hclose
              obtain ⟨⟨items, r'⟩, hitems, h⟩ := map_eq_ok_iff.mp h
              cases h
              exact Or.inr ⟨hclose, items, hitems, rfl⟩
          · split at h
            · rename_i hb
              refine Or.inr (Or.inr (Or.inl ⟨t, by rw [hb], ?_⟩))
              split at h
              · rename_i hclose
                cases h
                exact Or.inl ⟨hclose, rfl⟩
              · rename_i hclose
                obtain ⟨⟨fields, r'⟩, hfields, h⟩ := map_eq_ok_iff.mp h
                cases h
                exact Or.inr ⟨hclose, fields, hfields, rfl⟩
            · exact Or.inr (Or.inr (Or.inr h))
  · intro h
    rcases h with h | ⟨t, content, rfl, h, rfl⟩ | ⟨t, rfl, ⟨h, rfl⟩ | ⟨hclose, items, h, rfl⟩⟩ |
      ⟨t, rfl, ⟨h, rfl⟩ | ⟨hclose, fields, h, rfl⟩⟩ | h
    · cases s with
      | nil => cases h
      | cons b t => rw [readValue, h]
    · rw [readValue, readWord_cons (by decide)]
      exact map_eq_ok_iff.mpr ⟨(content, r), h, rfl⟩
    · rw [readValue, readWord_cons (by decide)]
      dsimp only
      rw [if_neg (by decide), if_pos rfl, h]
    · rw [readValue, readWord_cons (by decide)]
      dsimp only
      rw [if_neg (by decide), if_pos rfl, hclose]
      exact map_eq_ok_iff.mpr ⟨(items, r), h, rfl⟩
    · rw [readValue, readWord_cons (by decide)]
      dsimp only
      rw [if_neg (by decide), if_neg (by decide), if_pos rfl, h]
    · rw [readValue, readWord_cons (by decide)]
      dsimp only
      rw [if_neg (by decide), if_neg (by decide), if_pos rfl, hclose]
      exact map_eq_ok_iff.mpr ⟨(fields, r), h, rfl⟩
    · obtain ⟨b, t, rfl, hb⟩ := begins_of_readNumber h
      have hne (c : UInt8) (hc : ¬ BeginsNumber c) : b ≠ c := fun hbc => hc (hbc ▸ hb)
      rw [readValue, readWord_cons hb.noWord]
      dsimp only
      rw [if_neg (hne 0x22 (by decide)),
        if_neg (hne 0x5B (by decide)),
        if_neg (hne 0x7B (by decide))]
      exact h

/-- **The rules for elements**: another one follows a comma, and the last one a bracket. -/
theorem readItems_succ_iff {n : Nat} {items : List Json} :
    readItems (n + 1) s = .ok (items, r) ↔
      ∃ j rest, readValue n s = .ok (j, rest) ∧
        ((∃ t tail, expect [0x2C] (skipBlanks rest) = some t ∧
            readItems n (skipBlanks t) = .ok (tail, r) ∧ items = j :: tail) ∨
          expect [0x2C] (skipBlanks rest) = none ∧ expect [0x5D] (skipBlanks rest) = some r ∧
            items = [j]) := by
  rw [readItems, bind_eq_ok_iff]
  constructor
  · intro h
    obtain ⟨⟨j, rest⟩, hvalue, h⟩ := h
    refine ⟨j, rest, hvalue, ?_⟩
    dsimp only at h
    split at h
    · rename_i t hcomma
      obtain ⟨⟨tail, r'⟩, htail, h⟩ := bind_eq_ok_iff.mp h
      cases h
      exact Or.inl ⟨t, tail, hcomma, htail, rfl⟩
    · rename_i hcomma
      split at h
      · rename_i hclose
        cases h
        exact Or.inr ⟨hcomma, hclose, rfl⟩
      · cases h
  · intro h
    obtain ⟨j, rest, hvalue, ⟨t, tail, hcomma, htail, rfl⟩ | ⟨hcomma, hclose, rfl⟩⟩ := h
    · refine ⟨(j, rest), hvalue, ?_⟩
      dsimp only
      rw [hcomma]
      exact bind_eq_ok_iff.mpr ⟨(tail, r), htail, rfl⟩
    · refine ⟨(j, rest), hvalue, ?_⟩
      dsimp only
      rw [hcomma]
      dsimp only
      rw [hclose]

/-- **The rules for fields**: a key, a colon and a value; another one follows a comma, and the last
    one a brace. -/
theorem readFields_succ_iff {n : Nat} {fields : List (Bytes × Json)} :
    readFields (n + 1) s = .ok (fields, r) ↔
      ∃ t key rest, expect [0x22] s = some t ∧ readString t = .ok (key, rest) ∧
        ∃ t' j rest', expect [0x3A] (skipBlanks rest) = some t' ∧
          readValue n (skipBlanks t') = .ok (j, rest') ∧
          ((∃ t'' tail, expect [0x2C] (skipBlanks rest') = some t'' ∧
              readFields n (skipBlanks t'') = .ok (tail, r) ∧ fields = (key, j) :: tail) ∨
            expect [0x2C] (skipBlanks rest') = none ∧ expect [0x7D] (skipBlanks rest') = some r ∧
              fields = [(key, j)]) := by
  rw [readFields]
  constructor
  · intro h
    split at h
    · cases h
    · rename_i t hquote
      obtain ⟨⟨key, rest⟩, hkey, h⟩ := bind_eq_ok_iff.mp h
      refine ⟨t, key, rest, hquote, hkey, ?_⟩
      dsimp only at h
      split at h
      · cases h
      · rename_i t' hcolon
        obtain ⟨⟨j, rest'⟩, hvalue, h⟩ := bind_eq_ok_iff.mp h
        refine ⟨t', j, rest', hcolon, hvalue, ?_⟩
        dsimp only at h
        split at h
        · rename_i t'' hcomma
          obtain ⟨⟨tail, r'⟩, htail, h⟩ := bind_eq_ok_iff.mp h
          cases h
          exact Or.inl ⟨t'', tail, hcomma, htail, rfl⟩
        · rename_i hcomma
          split at h
          · rename_i hclose
            cases h
            exact Or.inr ⟨hcomma, hclose, rfl⟩
          · cases h
  · intro h
    obtain ⟨t, key, rest, hquote, hkey, t', j, rest', hcolon, hvalue, hmore⟩ := h
    rw [hquote]
    refine bind_eq_ok_iff.mpr ⟨(key, rest), hkey, ?_⟩
    dsimp only
    rw [hcolon]
    refine bind_eq_ok_iff.mpr ⟨(j, rest'), hvalue, ?_⟩
    dsimp only
    rcases hmore with ⟨t'', tail, hcomma, htail, rfl⟩ | ⟨hcomma, hclose, rfl⟩
    · rw [hcomma]
      exact bind_eq_ok_iff.mpr ⟨(tail, r), htail, rfl⟩
    · rw [hcomma]
      dsimp only
      rw [hclose]

theorem ne_nil_of_readValue {n : Nat} {j : Json} (h : readValue n s = .ok (j, r)) : s ≠ [] := by
  intro heq
  subst heq
  cases n <;> cases h

theorem ne_nil_of_readItems {n : Nat} {items : List Json} (h : readItems n s = .ok (items, r)) :
    s ≠ [] := by
  cases n with
  | zero => cases h
  | succ n =>
    obtain ⟨j, rest, hvalue, -⟩ := readItems_succ_iff.mp h
    exact ne_nil_of_readValue hvalue

theorem ne_nil_of_readFields {n : Nat} {fields : List (Bytes × Json)}
    (h : readFields n s = .ok (fields, r)) : s ≠ [] := by
  intro heq
  subst heq
  cases n <;> cases h

/-- An object begins with a brace. -/
theorem begins_of_object {n : Nat} {fields : List (Bytes × Json)}
    (h : readValue n s = .ok (.obj fields, r)) : ∃ t, s = 0x7B :: t := by
  cases n with
  | zero => cases h
  | succ n =>
    rcases readValue_succ_iff.mp h with hword | ⟨_, _, -, -, hj⟩ | ⟨_, -, ⟨-, hj⟩ | ⟨-, _, -, hj⟩⟩ |
      ⟨t, hs, -⟩ | hdigits
    · rcases readWord_eq_some_iff.mp hword with ⟨hj, -⟩ | ⟨hj, -⟩ | ⟨hj, -⟩
      all_goals cases hj
    · cases hj
    · cases hj
    · cases hj
    · exact ⟨t, hs⟩
    · cases isNumber_of_readNumber hdigits

/-- The first byte of a value, and that of a number. -/
theorem begins_of_readValue {n : Nat} {j : Json} (h : readValue n s = .ok (j, r)) :
    ∃ b t, s = b :: t ∧ b ≠ 0xEF ∧ (j.isNumber = true → BeginsNumber b) := by
  cases n with
  | zero => cases h
  | succ n =>
    rcases readValue_succ_iff.mp h with hword | ⟨t, content, rfl, -, rfl⟩ |
      ⟨t, rfl, ⟨-, rfl⟩ | ⟨-, items, -, rfl⟩⟩ | ⟨t, rfl, ⟨-, rfl⟩ | ⟨-, fields, -, rfl⟩⟩ | hdigits
    · rcases readWord_eq_some_iff.mp hword with ⟨rfl, rfl⟩ | ⟨rfl, rfl⟩ | ⟨rfl, rfl⟩
      all_goals exact ⟨_, _, rfl, by decide, nofun⟩
    · exact ⟨_, t, rfl, by decide, nofun⟩
    · exact ⟨_, t, rfl, by decide, nofun⟩
    · exact ⟨_, t, rfl, by decide, nofun⟩
    · exact ⟨_, t, rfl, by decide, nofun⟩
    · exact ⟨_, t, rfl, by decide, nofun⟩
    · obtain ⟨b, t, rfl, hb⟩ := begins_of_readNumber hdigits
      refine ⟨b, t, rfl, ?_, fun _ => hb⟩
      intro heq
      subst heq
      exact absurd hb (by decide)

/-! ## 3. Whole texts -/

/-- The text behind its byte order mark, if it has one. -/
def withoutMark (s : Bytes) : Bytes :=
  (expect [0xEF, 0xBB, 0xBF] s).getD s

theorem parse?_eq_some_iff {j : Json} :
    parse? s = some j ↔
      ∃ r, readValue (2 * (withoutMark s).length + 2) (skipBlanks (withoutMark s)) = .ok (j, r) ∧
        isEnd (skipBlanks r) = true := by
  have hparse : parse? s = some j ↔ parse s = .ok j := by
    unfold parse?
    cases parse s with
    | error e => exact ⟨nofun, nofun⟩
    | ok j' =>
      exact ⟨fun h => congrArg _ (Option.some.inj h), fun h => congrArg _ (Except.ok.inj h)⟩
  rw [hparse, parse, bind_eq_ok_iff]
  constructor
  · intro h
    obtain ⟨⟨j', r⟩, hvalue, h⟩ := h
    dsimp only at h
    split at h
    · rename_i hend
      cases h
      exact ⟨r, hvalue, hend⟩
    · cases h
  · intro h
    obtain ⟨r, hvalue, hend⟩ := h
    refine ⟨(j, r), hvalue, ?_⟩
    dsimp only
    rw [if_pos hend]

/-! ## 4. What is read -/

/-- **A property that a value has from its parts**, as the reader puts them together. -/
structure Compositional (p : Json → Prop) : Prop where
  null : p .null
  bool : ∀ b, p (.bool b)
  int : ∀ {n : Int}, -0x8000000000000000 ≤ n → n < 0x10000000000000000 → p (.int n)
  double : ∀ {negative m e x}, Binary64.ofDecimal negative m e = some x → p (.double x)
  str : ∀ {content}, Utf8.valid content = true → p (.str content)
  arr : ∀ {items}, (∀ item ∈ items, p item) → p (.arr items)
  object : ∀ {fields : List (Bytes × Json)},
    (∀ field ∈ fields, Utf8.valid field.1 = true ∧ p field.2) → p (object fields)

/-- What the readers read has the property, with this much fuel. -/
structure ReadsWith (p : Json → Prop) (n : Nat) : Prop where
  value : ∀ {s j r}, readValue n s = .ok (j, r) → p j
  items : ∀ {s items r}, readItems n s = .ok (items, r) → ∀ item ∈ items, p item
  fields : ∀ {s fields r}, readFields n s = .ok (fields, r) →
    ∀ field ∈ fields, Utf8.valid field.1 = true ∧ p field.2

namespace Compositional

variable {p : Json → Prop} (hp : Compositional p)

include hp

theorem readNumber {j : Json} (h : readNumber s = .ok (j, r)) : p j := by
  obtain ⟨i, hlow, hhigh, rfl⟩ | ⟨negative, m, e, x, hx, rfl⟩ := readNumber_cases h
  · exact hp.int hlow hhigh
  · exact hp.double hx

theorem value_succ {n : Nat} (ih : ReadsWith p n) {j : Json}
    (h : readValue (n + 1) s = .ok (j, r)) : p j := by
  rcases readValue_succ_iff.mp h with hword | ⟨t, content, rfl, hstring, rfl⟩ |
    ⟨t, rfl, ⟨-, rfl⟩ | ⟨-, items, hitems, rfl⟩⟩ | ⟨t, rfl, ⟨-, rfl⟩ | ⟨-, fields, hfields, rfl⟩⟩ |
    hdigits
  · rcases readWord_eq_some_iff.mp hword with ⟨rfl, -⟩ | ⟨rfl, -⟩ | ⟨rfl, -⟩
    · exact hp.null
    · exact hp.bool true
    · exact hp.bool false
  · exact hp.str (valid_of_readString hstring)
  · exact hp.arr (List.forall_mem_nil _)
  · exact hp.arr (ih.items hitems)
  · exact hp.object (List.forall_mem_nil _)
  · exact hp.object (ih.fields hfields)
  · exact hp.readNumber hdigits

/-- By induction on the fuel. -/
theorem readsWith (n : Nat) : ReadsWith p n := by
  induction n with
  | zero =>
    constructor
    · intro s j r h
      cases h
    · intro s items r h
      cases h
    · intro s fields r h
      cases h
  | succ n ih =>
    constructor
    · intro s j r h
      exact hp.value_succ ih h
    · intro s items r h
      obtain ⟨j, rest, hvalue, ⟨t, tail, -, htail, rfl⟩ | ⟨-, -, rfl⟩⟩ := readItems_succ_iff.mp h
      · exact List.forall_mem_cons.mpr ⟨ih.value hvalue, ih.items htail⟩
      · exact List.forall_mem_singleton.mpr (ih.value hvalue)
    · intro s fields r h
      obtain ⟨t, key, rest, -, hkey, t', j, rest', -, hvalue, hmore⟩ := readFields_succ_iff.mp h
      have hfield : Utf8.valid key = true ∧ p j := ⟨valid_of_readString hkey, ih.value hvalue⟩
      rcases hmore with ⟨t'', tail, -, htail, rfl⟩ | ⟨-, -, rfl⟩
      · exact List.forall_mem_cons.mpr ⟨hfield, ih.fields htail⟩
      · exact List.forall_mem_singleton.mpr hfield

/-- **Every value that is read has the property.** -/
theorem of_parse? {j : Json} (h : parse? s = some j) : p j := by
  obtain ⟨r, hvalue, -⟩ := parse?_eq_some_iff.mp h
  exact (hp.readsWith _).value hvalue

end Compositional

theorem compositional_isText : Compositional (·.isText = true) where
  null := rfl
  bool _ := rfl
  int _ _ := rfl
  double _ := rfl
  str htext := htext
  arr hitems := itemsAreText_iff.mpr hitems
  object hfields := isText_object hfields

/-- **What is read can be written.** -/
theorem isText_of_parse? {j : Json} (h : parse? s = some j) : j.isText = true :=
  compositional_isText.of_parse? h

end ChatRelay.Json
