import ChatRelay.Proofs.NumberRoundTrip
import ChatRelay.Proofs.Tables

/-!
# Values are read back

Every value that can be read from some text (`Readable`) is read back from its own text
(`parse?_render`).
-/

namespace ChatRelay.Json

variable {s r : Bytes}

/-! ## 1. What can be read -/

/-- **A value that a text can denote**: integers fit 64 bits, doubles are finite, strings and keys
    are UTF-8, and fields form a table. -/
inductive Readable : Json → Prop where
  | null : Readable .null
  | bool (b : Bool) : Readable (.bool b)
  | int {n : Int} (hlow : -0x8000000000000000 ≤ n) (hhigh : n < 0x10000000000000000) :
    Readable (.int n)
  | double {x : Binary64} (hfinite : x.magnitude < Binary64.infinity) : Readable (.double x)
  | str {s : Bytes} (htext : Utf8.valid s = true) : Readable (.str s)
  | arr {items : List Json} (hitems : ∀ item ∈ items, Readable item) : Readable (.arr items)
  | obj {fields : List (Bytes × Json)} (hsorted : Table.Sorted fields)
    (hkeys : ∀ field ∈ fields, Utf8.valid field.1 = true)
    (hfields : ∀ field ∈ fields, Readable field.2) : Readable (.obj fields)

theorem hereditary_readable : Hereditary Readable where
  items h := by
    cases h with
    | arr hitems => exact hitems
  fields h := by
    cases h with
    | obj hsorted hkeys hfields => exact hfields

theorem Readable.isText {j : Json} (h : j.Readable) : j.isText = true := by
  induction h with
  | null => rfl
  | bool => rfl
  | int => rfl
  | double => rfl
  | str htext => exact htext
  | arr hitems ih => exact itemsAreText_iff.mpr ih
  | obj hsorted hkeys hfields ih =>
    exact fieldsAreText_iff.mpr fun field hfield => ⟨hkeys field hfield, ih field hfield⟩

/-- An object that is built of readable fields. -/
theorem readable_object {fields : List (Bytes × Json)}
    (h : ∀ field ∈ fields, Utf8.valid field.1 = true ∧ field.2.Readable) :
    (object fields).Readable :=
  .obj (Table.sorted_ofList fields)
    (fun field hfield => (h field (Table.mem_of_mem_ofList hfield)).1)
    fun field hfield => (h field (Table.mem_of_mem_ofList hfield)).2

theorem compositional_readable : Compositional Readable where
  null := .null
  bool := .bool
  int := .int
  double hx := .double (Binary64.magnitude_lt_of_ofDecimal hx)
  str := .str
  arr := .arr
  object := readable_object

/-- **What is read is readable.** -/
theorem readable_of_parse? {j : Json} (h : parse? s = some j) : j.Readable :=
  compositional_readable.of_parse? h

/-! ## 2. Strings -/

theorem hexValue?_hexDigit {n : Nat} (h : n < 16) : hexValue? (Bytes.hexDigit n) = some n := by
  have hall : ∀ n < 16, hexValue? (Bytes.hexDigit n) = some n := by decide
  exact hall n h

/-- A four-digit escape of an ASCII byte is that byte. -/
theorem readChars_hex {n : Nat} (h : n < 0x80) (done s : Bytes) :
    readChars (.digits 3 0 none) done (Bytes.hex 4 n ++ s) =
      readChars .plain (n.toUInt8 :: done) s := by
  have hsplit : Bytes.hex 4 n ++ s = Bytes.hexDigit (n / 16 / 16 / 16 % 16) ::
      Bytes.hexDigit (n / 16 / 16 % 16) :: Bytes.hexDigit (n / 16 % 16) ::
        Bytes.hexDigit (n % 16) :: s := by
    simp [Bytes.hex]
  have hvalue : (((0 * 16 + n / 16 / 16 / 16 % 16) * 16 + n / 16 / 16 % 16) * 16 +
      n / 16 % 16) * 16 + n % 16 = n := by omega
  have hafter : afterEscape? n none = some ([n.toUInt8], .plain) := by
    have hhigh : isHighSurrogate n = false := by
      rw [isHighSurrogate, decide_eq_false (by omega), Bool.false_and]
    have hlow : isLowSurrogate n = false := by
      rw [isLowSurrogate, decide_eq_false (by omega), Bool.false_and]
    have hencode : Utf8.encode n = [n.toUInt8] := if_pos h
    rw [afterEscape?, hhigh, hlow, hencode]
    rfl
  rw [hsplit]
  simp only [readChars, hexValue?_hexDigit (Nat.mod_lt _ (by decide : 0 < 16)), hvalue, hafter]
  rfl

/-- An escaped byte is read as the byte. -/
theorem readChars_escapeByte (b : UInt8) (done s : Bytes) :
    readChars .plain done (escapeByte b ++ s) = readChars .plain (b :: done) s := by
  unfold escapeByte
  split_ifs with hquote hslash hplain h8 h12 h10 h13 h9
  · subst hquote
    rfl
  · subst hslash
    rfl
  · rw [List.singleton_append, readChars, if_neg hquote, if_neg hslash, if_neg]
    exact UInt8.not_lt.mpr hplain
  · subst h8
    rfl
  · subst h12
    rfl
  · subst h10
    rfl
  · subst h13
    rfl
  · subst h9
    rfl
  · have hsmall : b.toNat < 0x80 := by
      have hlt := UInt8.lt_iff_toNat_lt.mp (UInt8.not_le.mp hplain)
      have hval : (0x20 : UInt8).toNat = 0x20 := rfl
      omega
    have hread := readChars_hex hsmall done s
    have hbyte : b.toNat.toUInt8 = b := UInt8.ofNat_toNat
    rw [hbyte] at hread
    exact hread

theorem readChars_flatMap_escapeByte (text done s : Bytes) :
    readChars .plain done (text.flatMap escapeByte ++ s) =
      readChars .plain (text.reverse ++ done) s := by
  induction text generalizing done with
  | nil => rfl
  | cons b text ih =>
    rw [List.flatMap_cons, List.append_assoc, readChars_escapeByte, ih, List.reverse_cons,
      List.append_assoc]
    rfl

/-- **A string is read back from its quoted text.** -/
theorem readString_quote {text : Bytes} (h : Utf8.valid text = true) (r : Bytes) :
    readString (text.flatMap escapeByte ++ 0x22 :: r) = .ok (text, r) := by
  have hchars : readChars .plain [] (text.flatMap escapeByte ++ 0x22 :: r) = some (text, r) := by
    rw [readChars_flatMap_escapeByte, readChars, if_pos rfl, List.append_nil, List.reverse_reverse]
  rw [readString, hchars]
  exact if_pos h

/-! ## 3. Values -/

/-- A value does not begin with a blank, nor with the end of an array. -/
theorem begins_unblank_of_readValue {n : Nat} {j : Json} (h : readValue n s = .ok (j, r)) :
    ∃ b t, s = b :: t ∧ Bytes.isBlank b = false ∧ b ≠ 0x5D := by
  cases n with
  | zero => cases h
  | succ n =>
    rcases readValue_succ_iff.mp h with hword | ⟨t, content, rfl, -, -⟩ | ⟨t, rfl, -⟩ |
      ⟨t, rfl, -⟩ | hnumber
    · rcases readWord_eq_some_iff.mp hword with ⟨-, rfl⟩ | ⟨-, rfl⟩ | ⟨-, rfl⟩
      all_goals exact ⟨_, _, rfl, by decide, by decide⟩
    · exact ⟨_, t, rfl, by decide, by decide⟩
    · exact ⟨_, t, rfl, by decide, by decide⟩
    · exact ⟨_, t, rfl, by decide, by decide⟩
    · obtain ⟨b, t, rfl, hb⟩ := begins_of_readNumber hnumber
      have hblank : Bytes.isBlank b = false := by
        simp only [Bytes.isBlank, Bool.or_eq_false_iff, beq_eq_false_iff_ne]
        refine ⟨⟨⟨?_, ?_⟩, ?_⟩, ?_⟩
        all_goals
          intro heq
          subst heq
          exact absurd hb (by decide)
      refine ⟨b, t, rfl, hblank, ?_⟩
      intro heq
      subst heq
      exact absurd hb (by decide)

theorem skipBlanks_cons {b : UInt8} (h : Bytes.isBlank b = false) (s : Bytes) :
    skipBlanks (b :: s) = b :: s :=
  List.dropWhile_cons_of_neg (Bool.eq_false_iff.mp h)

theorem skipBlanks_of_readValue {n : Nat} {j : Json} (h : readValue n s = .ok (j, r)) :
    skipBlanks s = s := by
  obtain ⟨b, t, rfl, hb, -⟩ := begins_unblank_of_readValue h
  exact skipBlanks_cons hb t

/-- Elements begin with a value. -/
theorem begins_of_readItems {n : Nat} {items : List Json} (h : readItems n s = .ok (items, r)) :
    skipBlanks s = s ∧ expect [0x5D] s = none := by
  cases n with
  | zero => cases h
  | succ n =>
    obtain ⟨j, rest, hvalue, -⟩ := readItems_succ_iff.mp h
    refine ⟨skipBlanks_of_readValue hvalue, expect_eq_none ?_⟩
    obtain ⟨b, t, rfl, -, hb⟩ := begins_unblank_of_readValue hvalue
    exact fun heq => hb (Option.some.inj heq)

/-- Fields begin with the quote of a key. -/
theorem begins_of_readFields {n : Nat} {fields : List (Bytes × Json)}
    (h : readFields n s = .ok (fields, r)) : skipBlanks s = s ∧ expect [0x7D] s = none := by
  cases n with
  | zero => cases h
  | succ n =>
    obtain ⟨t, key, rest, hquote, -⟩ := readFields_succ_iff.mp h
    rw [expect_eq_some_iff.mp hquote]
    exact ⟨skipBlanks_cons (by decide) t, expect_eq_none fun heq =>
      absurd (Option.some.inj heq) (by decide)⟩

theorem ends_cons {b : UInt8} (h : b = 0x2C ∨ b = 0x5D ∨ b = 0x7D) (s : Bytes) :
    Ends (b :: s) := by
  intro c hc
  rw [← Option.some.inj hc]
  rcases h with rfl | rfl | rfl
  all_goals decide

theorem ends_nil : Ends [] := nofun

/-- A byte that is no blank is met at once. -/
theorem expect_skipBlanks_cons {b : UInt8} (h : Bytes.isBlank b = false) (s : Bytes) :
    expect [b] (skipBlanks (b :: s)) = some s := by
  rw [skipBlanks_cons h]
  exact expect_eq_some_iff.mpr rfl

theorem expect_comma_of_close {b : UInt8} (h : b = 0x5D ∨ b = 0x7D) (s : Bytes) :
    expect [0x2C] (skipBlanks (b :: s)) = none := by
  rcases h with rfl | rfl
  all_goals
    rw [skipBlanks_cons (by decide)]
    exact expect_eq_none fun heq => absurd (Option.some.inj heq) (by decide)

theorem length_renderItems_pos (items : List Json) : 0 < (renderItems items).length := by
  cases items with
  | nil => exact Nat.one_pos
  | cons j rest => cases rest <;> simp [renderItems, renderMoreItems]

theorem length_renderFields_pos (fields : List (Bytes × Json)) :
    0 < (renderFields fields).length := by
  cases fields with
  | nil => exact Nat.one_pos
  | cons field rest => simp [renderFields, quote]

mutual

/-- **A readable value is read back from its text**, whatever follows that is not part of it. Two
    units of fuel for each byte are enough. -/
theorem readValue_render : ∀ {j : Json} {n : Nat} {r : Bytes}, j.Readable → Ends r → 0 < n →
    2 * j.render.length ≤ n → readValue n (j.render ++ r) = .ok (j, r)
  | _, 0, _, _, _, hpos, _ => absurd hpos (Nat.lt_irrefl 0)
  | .null, n + 1, r, _, _, _, _ =>
    readValue_succ_iff.mpr (.inl (readWord_eq_some_iff.mpr (.inl ⟨rfl, rfl⟩)))
  | .bool true, n + 1, r, _, _, _, _ =>
    readValue_succ_iff.mpr (.inl (readWord_eq_some_iff.mpr (.inr (.inl ⟨rfl, rfl⟩))))
  | .bool false, n + 1, r, _, _, _, _ =>
    readValue_succ_iff.mpr (.inl (readWord_eq_some_iff.mpr (.inr (.inr ⟨rfl, rfl⟩))))
  | .int i, n + 1, r, h, hr, _, _ => by
    cases h with
    | int hlow hhigh =>
      exact readValue_succ_iff.mpr (.inr (.inr (.inr (.inr (readNumber_ofInt hlow hhigh hr)))))
  | .double x, n + 1, r, h, hr, _, _ => by
    cases h with
    | double hfinite =>
      exact readValue_succ_iff.mpr (.inr (.inr (.inr (.inr (readNumber_render hfinite hr)))))
  | .str s, n + 1, r, h, _, _, _ => by
    cases h with
    | str htext =>
      refine readValue_succ_iff.mpr (.inr (.inl ⟨s.flatMap escapeByte ++ 0x22 :: r, s, ?_,
        readString_quote htext r, rfl⟩))
      rw [render, quote, List.cons_append, List.append_assoc]
      rfl
  | .arr [], n + 1, r, _, _, _, _ =>
    readValue_succ_iff.mpr (.inr (.inr (.inl ⟨0x5D :: r, rfl,
      .inl ⟨expect_skipBlanks_cons (by decide) r, rfl⟩⟩)))
  | .arr (j :: items), n + 1, r, h, _, _, hn => by
    cases h with
    | arr hitems =>
      rw [render, List.length_cons] at hn
      have hread := readItems_render (r := r) (List.cons_ne_nil j items) hitems
        (by omega : 2 * (renderItems (j :: items)).length ≤ n)
      obtain ⟨hblank, hclose⟩ := begins_of_readItems hread
      rw [← hblank] at hclose
      refine readValue_succ_iff.mpr (.inr (.inr (.inl ⟨renderItems (j :: items) ++ r, rfl,
        .inr ⟨hclose, j :: items, ?_, rfl⟩⟩)))
      rw [hblank]
      exact hread
  | .obj [], n + 1, r, _, _, _, _ =>
    readValue_succ_iff.mpr (.inr (.inr (.inr (.inl ⟨0x7D :: r, rfl,
      .inl ⟨expect_skipBlanks_cons (by decide) r, rfl⟩⟩))))
  | .obj (field :: fields), n + 1, r, h, _, _, hn => by
    cases h with
    | obj hsorted hkeys hfields =>
      rw [render, List.length_cons] at hn
      have hread := readFields_render (r := r) (List.cons_ne_nil field fields) hkeys hfields
        (by omega : 2 * (renderFields (field :: fields)).length ≤ n)
      obtain ⟨hblank, hclose⟩ := begins_of_readFields hread
      rw [← hblank] at hclose
      refine readValue_succ_iff.mpr (.inr (.inr (.inr (.inl ⟨renderFields (field :: fields) ++ r,
        rfl, .inr ⟨hclose, field :: fields, ?_, ?_⟩⟩))))
      · rw [hblank]
        exact hread
      · rw [object, Table.ofList_of_sorted hsorted]

/-- The elements of an array. -/
theorem readItems_render : ∀ {items : List Json} {n : Nat} {r : Bytes}, items ≠ [] →
    (∀ item ∈ items, item.Readable) → 2 * (renderItems items).length ≤ n →
    readItems n (renderItems items ++ r) = .ok (items, r)
  | [], _, _, hne, _, _ => absurd rfl hne
  | items, 0, _, _, _, hn => by
    have hpos := length_renderItems_pos items
    omega
  | [j], n + 1, r, _, hitems, hn => by
    have hj := hitems j List.mem_cons_self
    have htext : renderItems [j] ++ r = render j ++ 0x5D :: r := List.append_assoc ..
    have hlength : (renderItems [j]).length = (render j).length + 1 := List.length_append
    have hvalue := readValue_render (r := 0x5D :: r) hj (ends_cons (by decide) r)
      (by omega : 0 < n) (by omega)
    rw [htext]
    exact readItems_succ_iff.mpr ⟨j, 0x5D :: r, hvalue,
      .inr ⟨expect_comma_of_close (.inl rfl) r, expect_skipBlanks_cons (by decide) r, rfl⟩⟩
  | j :: next :: rest, n + 1, r, _, hitems, hn => by
    obtain ⟨hj, hrest⟩ := List.forall_mem_cons.mp hitems
    have htext : renderItems (j :: next :: rest) ++ r =
        render j ++ 0x2C :: (renderItems (next :: rest) ++ r) := List.append_assoc ..
    have hlength : (renderItems (j :: next :: rest)).length =
        (render j).length + ((renderItems (next :: rest)).length + 1) := List.length_append
    have hvalue := readValue_render (r := 0x2C :: (renderItems (next :: rest) ++ r)) hj
      (ends_cons (by decide) _) (by omega : 0 < n) (by omega)
    have hitems := readItems_render (r := r) (List.cons_ne_nil next rest) hrest
      (by omega : 2 * (renderItems (next :: rest)).length ≤ n)
    rw [htext]
    refine readItems_succ_iff.mpr ⟨j, _, hvalue, .inl ⟨renderItems (next :: rest) ++ r,
      next :: rest, expect_skipBlanks_cons (by decide) _, ?_, rfl⟩⟩
    rw [(begins_of_readItems hitems).1]
    exact hitems

/-- The fields of an object. -/
theorem readFields_render : ∀ {fields : List (Bytes × Json)} {n : Nat} {r : Bytes}, fields ≠ [] →
    (∀ field ∈ fields, Utf8.valid field.1 = true) → (∀ field ∈ fields, field.2.Readable) →
    2 * (renderFields fields).length ≤ n →
    readFields n (renderFields fields ++ r) = .ok (fields, r)
  | [], _, _, hne, _, _, _ => absurd rfl hne
  | fields, 0, _, _, _, _, hn => by
    have hpos := length_renderFields_pos fields
    omega
  | [(key, j)], n + 1, r, _, hkeys, hfields, hn => by
    have hkey := hkeys _ List.mem_cons_self
    have hj : j.Readable := hfields _ List.mem_cons_self
    have htext : renderFields [(key, j)] ++ r = 0x22 :: (key.flatMap escapeByte ++
        0x22 :: 0x3A :: (render j ++ 0x7D :: r)) := by
      simp [renderFields, renderMoreFields, quote]
    have hlength : (renderFields [(key, j)]).length =
        (quote key).length + ((render j).length + 1 + 1) := by
      simp [renderFields, renderMoreFields]
    have hvalue := readValue_render (r := 0x7D :: r) hj (ends_cons (by decide) r)
      (by omega : 0 < n) (by omega)
    rw [htext]
    refine readFields_succ_iff.mpr ⟨_, key, _, expect_eq_some_iff.mpr rfl,
      readString_quote hkey _, render j ++ 0x7D :: r, j, 0x7D :: r,
      expect_skipBlanks_cons (by decide) _, ?_,
      .inr ⟨expect_comma_of_close (.inr rfl) r, expect_skipBlanks_cons (by decide) r, rfl⟩⟩
    rw [skipBlanks_of_readValue hvalue]
    exact hvalue
  | (key, j) :: next :: rest, n + 1, r, _, hkeys, hfields, hn => by
    obtain ⟨hkey, hkeys⟩ := List.forall_mem_cons.mp hkeys
    obtain ⟨hfield, hrest⟩ := List.forall_mem_cons.mp hfields
    have hj : j.Readable := hfield
    have htext : renderFields ((key, j) :: next :: rest) ++ r = 0x22 :: (key.flatMap escapeByte ++
        0x22 :: 0x3A :: (render j ++ 0x2C :: (renderFields (next :: rest) ++ r))) := by
      simp [renderFields, renderMoreFields, quote]
    have hlength : (renderFields ((key, j) :: next :: rest)).length =
        (quote key).length +
          ((render j).length + ((renderFields (next :: rest)).length + 1) + 1) := by
      simp [renderFields, renderMoreFields]
    have hvalue := readValue_render (r := 0x2C :: (renderFields (next :: rest) ++ r)) hj
      (ends_cons (by decide) _) (by omega : 0 < n) (by omega)
    have hmore := readFields_render (r := r) (List.cons_ne_nil next rest) hkeys hrest
      (by omega : 2 * (renderFields (next :: rest)).length ≤ n)
    rw [htext]
    refine readFields_succ_iff.mpr ⟨_, key, _, expect_eq_some_iff.mpr rfl,
      readString_quote hkey _, render j ++ 0x2C :: (renderFields (next :: rest) ++ r), j, _,
      expect_skipBlanks_cons (by decide) _, ?_,
      .inl ⟨renderFields (next :: rest) ++ r, next :: rest, expect_skipBlanks_cons (by decide) _,
        ?_, rfl⟩⟩
    · rw [skipBlanks_of_readValue hvalue]
      exact hvalue
    · rw [(begins_of_readFields hmore).1]
      exact hmore

end

/-- **A value that can be read is read back from its own text.** -/
theorem parse?_render {j : Json} (h : j.Readable) : parse? j.render = some j := by
  have hread (n : Nat) (hn : 2 * j.render.length ≤ n) (hpos : 0 < n) :
      readValue n j.render = .ok (j, []) := by
    have hvalue := readValue_render (r := []) h ends_nil hpos hn
    rwa [List.append_nil] at hvalue
  have hvalue := hread (2 * j.render.length + 2) (Nat.le_add_right _ _) (Nat.succ_pos _)
  have hmark : withoutMark j.render = j.render := by
    obtain ⟨b, t, htext, hb, -⟩ := begins_of_readValue hvalue
    have hnone : expect [0xEF, 0xBB, 0xBF] j.render = none := by
      rw [Option.eq_none_iff_forall_ne_some]
      intro rest hrest
      rw [htext] at hrest
      exact hb (List.cons.inj (expect_eq_some_iff.mp hrest)).1
    rw [withoutMark, hnone]
    rfl
  refine parse?_eq_some_iff.mpr ⟨[], ?_, rfl⟩
  rw [hmark, skipBlanks_of_readValue hvalue]
  exact hvalue

end ChatRelay.Json
