import ChatRelay.Proofs.ReaderRules

/-!
# What the JSON reader does with a text that goes on

A text that arrives in pieces may be read too early. Here is what is read then: each step reads the
same when the text goes on, and leaves the rest with what has been added.

* `Continues` -- of the recursive steps (`continues`). Only a number has to be followed by
  something, because more digits change it, and so the steps on numbers ask for a rest that is not
  empty;
* `parse?_append_of_object` -- a text that is an object has no other value before its end.
-/

namespace ChatRelay.Json

variable {s q r : Bytes}

/-! ## 1. Blanks and words -/

theorem skipBlanks_append (h : skipBlanks s ≠ []) : skipBlanks (s ++ q) = skipBlanks s ++ q := by
  rw [skipBlanks, List.dropWhile_append, if_neg]
  · rfl
  · rw [List.isEmpty_iff]
    exact h

theorem expect_append {word : Bytes} (h : expect word s = some r) :
    expect word (s ++ q) = some (r ++ q) := by
  rw [expect_eq_some_iff] at h ⊢
  rw [h, List.append_assoc]

/-- Whether a word stands at the beginning is seen once enough has come. -/
theorem expect_append_of_length (word : Bytes) (h : word.length ≤ s.length) :
    expect word (s ++ q) = (expect word s).map (· ++ q) := by
  cases hs : expect word s with
  | some r => exact expect_append hs
  | none =>
    rw [Option.map_none, Option.eq_none_iff_forall_ne_some]
    intro r hr
    rw [expect_eq_some_iff] at hr
    obtain ⟨t, ht⟩ : word <+: s :=
      List.prefix_of_prefix_length_le ⟨r, hr.symm⟩ (List.prefix_append s q) h
    rw [expect_eq_some_iff.mpr ht.symm] at hs
    cases hs

theorem expect_getD_append (word : Bytes) (h : word.length ≤ s.length) :
    (expect word (s ++ q)).getD (s ++ q) = (expect word s).getD s ++ q := by
  rw [expect_append_of_length word h]
  cases expect word s <;> rfl

/-- Punctuation behind blanks, with the text going on. -/
theorem expect_skipBlanks_append {word : Bytes} (hword : word ≠ [])
    (h : expect word (skipBlanks s) = some r) :
    expect word (skipBlanks (s ++ q)) = some (r ++ q) := by
  rw [skipBlanks_append]
  · exact expect_append h
  · intro hnil
    rw [hnil, expect_eq_some_iff] at h
    exact hword (List.append_eq_nil_iff.mp h.symm).1

/-- Another byte than expected, with the text going on. -/
theorem expect_skipBlanks_append_eq_none {b c : UInt8}
    (h : expect [b] (skipBlanks s) = none) (hc : expect [c] (skipBlanks s) = some r) :
    expect [b] (skipBlanks (s ++ q)) = none := by
  have hlength : 1 ≤ (skipBlanks s).length := by
    rw [expect_eq_some_iff.mp hc]
    exact Nat.succ_le_succ (Nat.zero_le _)
  rw [skipBlanks_append (List.length_pos_iff.mp hlength), expect_append_of_length [b] hlength, h]
  rfl

theorem ne_nil_of_expect {word : Bytes} (hword : word ≠ [])
    (h : expect word (skipBlanks s) = some r) : s ≠ [] := by
  intro heq
  subst heq
  exact hword (List.append_eq_nil_iff.mp (expect_eq_some_iff.mp h).symm).1

theorem readWord_append {w : Json} (h : readWord s = some (w, r)) :
    readWord (s ++ q) = some (w, r ++ q) := by
  rw [readWord_eq_some_iff] at h ⊢
  rcases h with ⟨hw, rfl⟩ | ⟨hw, rfl⟩ | ⟨hw, rfl⟩
  · exact Or.inl ⟨hw, List.append_assoc _ r q⟩
  · exact Or.inr (Or.inl ⟨hw, List.append_assoc _ r q⟩)
  · exact Or.inr (Or.inr ⟨hw, List.append_assoc _ r q⟩)

/-! ## 2. Strings and numbers -/

theorem readChars_append {mode : CharMode} {done content : Bytes}
    (h : readChars mode done s = some (content, r)) :
    readChars mode done (s ++ q) = some (content, r ++ q) := by
  fun_induction readChars mode done s
  case case1 | case4 | case8 | case9 | case12 | case14 | case16 => cases h
  case case2 =>
    cases h
    rfl
  -- any other byte leads to the next one, whatever comes behind
  all_goals
    rw [List.cons_append, readChars]
    simp only [*, if_true, if_false]

theorem readString_append {content : Bytes} (h : readString s = .ok (content, r)) :
    readString (s ++ q) = .ok (content, r ++ q) := by
  unfold readString at h ⊢
  split at h
  · rename_i content' rest hchars
    rw [readChars_append hchars]
    dsimp only
    split at h
    · cases h
      rename_i hvalid
      rw [if_pos hvalid]
    · cases h
  · cases h

theorem readDigits_append {digits : Bytes} (h : readDigits s = .ok (digits, r)) (hr : r ≠ []) :
    readDigits (s ++ q) = .ok (digits, r ++ q) := by
  rw [readDigits_eq_ok_iff] at h ⊢
  obtain ⟨hne, hdigits, hrest⟩ := h
  have hsplit : digits ++ r = s := by
    rw [← hdigits, ← hrest, List.takeWhile_append_dropWhile]
  have hshort : (s.takeWhile Bytes.isDigit).length ≠ s.length := by
    have hlength := congrArg List.length hsplit
    rw [List.length_append] at hlength
    have hpos := List.length_pos_iff.mpr hr
    rw [hdigits]
    omega
  refine ⟨hne, ?_, ?_⟩
  · rw [List.takeWhile_append, if_neg hshort, hdigits]
  · rw [List.dropWhile_append, if_neg, hrest]
    rw [hrest, List.isEmpty_iff]
    exact hr

theorem ne_nil_of_readDigits {digits : Bytes} (h : readDigits s = .ok (digits, r)) : s ≠ [] := by
  intro heq
  subst heq
  cases h

theorem readWhole_append {digits : Bytes} (h : readWhole s = .ok (digits, r)) (hr : r ≠ []) :
    readWhole (s ++ q) = .ok (digits, r ++ q) := by
  rw [readWhole, bind_eq_ok_iff] at h ⊢
  obtain ⟨⟨digits', r'⟩, hdigits, h⟩ := h
  dsimp only at h
  split at h
  · cases h
  · rename_i hzero
    cases h
    refine ⟨(digits, r ++ q), readDigits_append hdigits hr, ?_⟩
    dsimp only
    rw [if_neg hzero]

theorem readFraction_append {fraction : Option Bytes} (h : readFraction s = .ok (fraction, r))
    (hr : r ≠ []) : readFraction (s ++ q) = .ok (fraction, r ++ q) := by
  unfold readFraction at h ⊢
  split at h
  · rename_i hpoint
    cases h
    rw [expect_append_of_length [0x2E] (List.length_pos_iff.mpr hr), hpoint]
    rfl
  · rename_i rest hpoint
    obtain ⟨⟨digits, r'⟩, hdigits, h⟩ := bind_eq_ok_iff.mp h
    cases h
    rw [expect_append hpoint]
    exact bind_eq_ok_iff.mpr ⟨(digits, r ++ q), readDigits_append hdigits hr, rfl⟩

theorem readExponent_append {exponent : Option Int} (h : readExponent s = .ok (exponent, r))
    (hr : r ≠ []) : readExponent (s ++ q) = .ok (exponent, r ++ q) := by
  unfold readExponent at h ⊢
  split at h
  · rename_i hletter
    cases h
    obtain ⟨hsmall, hcapital⟩ := Option.or_eq_none_iff.mp hletter
    have hlength : 1 ≤ s.length := List.length_pos_iff.mpr hr
    rw [expect_append_of_length "e" hlength, expect_append_of_length "E" hlength, hsmall, hcapital]
    rfl
  · rename_i rest hletter
    have hs : 1 ≤ s.length := by
      refine List.length_pos_iff.mpr ?_
      intro heq
      subst heq
      cases hletter
    have hletter' : (expect (Bytes.ofString "e") (s ++ q)).or
        (expect (Bytes.ofString "E") (s ++ q)) = some (rest ++ q) := by
      rw [expect_append_of_length "e" hs, expect_append_of_length "E" hs, ← Option.map_or, hletter]
      rfl
    rw [hletter']
    dsimp only
    split at h
    · rename_i digitsOn hsign
      obtain ⟨⟨digits, r'⟩, hdigits, h⟩ := bind_eq_ok_iff.mp h
      cases h
      rw [expect_append hsign]
      exact bind_eq_ok_iff.mpr ⟨(digits, r ++ q), readDigits_append hdigits hr, rfl⟩
    · rename_i hsign
      obtain ⟨⟨digits, r'⟩, hdigits, h⟩ := bind_eq_ok_iff.mp h
      cases h
      have hrest : 1 ≤ rest.length := by
        refine List.length_pos_iff.mpr ?_
        intro heq
        subst heq
        exact ne_nil_of_readDigits hdigits rfl
      rw [expect_append_of_length "-" hrest, hsign]
      refine bind_eq_ok_iff.mpr ⟨(digits, r ++ q), ?_, rfl⟩
      rw [expect_getD_append "+" hrest]
      exact readDigits_append hdigits hr

theorem readNumber_append {j : Json} (h : readNumber s = .ok (j, r)) (hr : r ≠ []) :
    readNumber (s ++ q) = .ok (j, r ++ q) := by
  rw [readNumber, bind_eq_ok_iff] at h ⊢
  obtain ⟨⟨whole, rest⟩, hwhole, h⟩ := h
  obtain ⟨⟨fraction, rest'⟩, hfraction, h⟩ := bind_eq_ok_iff.mp h
  obtain ⟨⟨exponent, rest''⟩, hexponent, h⟩ := bind_eq_ok_iff.mp h
  obtain ⟨j', hvalue, h⟩ := bind_eq_ok_iff.mp h
  cases h
  -- where the text ends within the number, so do its later parts
  have hr' : rest' ≠ [] := by
    intro heq
    subst heq
    cases hexponent
    exact hr rfl
  have hr'' : rest ≠ [] := by
    intro heq
    subst heq
    cases hfraction
    exact hr' rfl
  have hs : 1 ≤ s.length := by
    refine List.length_pos_iff.mpr ?_
    intro heq
    subst heq
    cases hwhole
  refine ⟨(whole, rest ++ q), ?_, ?_⟩
  · rw [expect_getD_append "-" hs]
    exact readWhole_append hwhole hr''
  · refine bind_eq_ok_iff.mpr ⟨(fraction, rest' ++ q), readFraction_append hfraction hr', ?_⟩
    refine bind_eq_ok_iff.mpr ⟨(exponent, r ++ q), readExponent_append hexponent hr, ?_⟩
    refine bind_eq_ok_iff.mpr ⟨j, ?_, rfl⟩
    rw [expect_append_of_length "-" hs, Option.isSome_map]
    exact hvalue

/-! ## 3. Values -/

/-- What the readers read with some fuel they read again with more, when the text goes on. A number
    has to be followed by something, because more digits would change it. -/
structure Continues (n : Nat) : Prop where
  value : ∀ {s j r}, readValue n s = .ok (j, r) → (j.isNumber = true → r ≠ []) →
    ∀ {m}, n ≤ m → ∀ q, readValue m (s ++ q) = .ok (j, r ++ q)
  items : ∀ {s items r}, readItems n s = .ok (items, r) →
    ∀ {m}, n ≤ m → ∀ q, readItems m (s ++ q) = .ok (items, r ++ q)
  fields : ∀ {s fields r}, readFields n s = .ok (fields, r) →
    ∀ {m}, n ≤ m → ∀ q, readFields m (s ++ q) = .ok (fields, r ++ q)

theorem Continues.value_succ {n : Nat} (ih : Continues n) {j : Json}
    (h : readValue (n + 1) s = .ok (j, r)) (hnumber : j.isNumber = true → r ≠ []) {m : Nat}
    (hm : n ≤ m) (q : Bytes) : readValue (m + 1) (s ++ q) = .ok (j, r ++ q) := by
  refine readValue_succ_iff.mpr ?_
  rcases readValue_succ_iff.mp h with hword | ⟨t, content, rfl, hstring, rfl⟩ | ⟨t, rfl, harray⟩ |
    ⟨t, rfl, hobject⟩ | hdigits
  · exact Or.inl (readWord_append hword)
  · exact Or.inr (Or.inl ⟨t ++ q, content, rfl, readString_append hstring, rfl⟩)
  · refine Or.inr (Or.inr (Or.inl ⟨t ++ q, rfl, ?_⟩))
    rcases harray with ⟨hclose, rfl⟩ | ⟨hclose, items, hitems, rfl⟩
    · exact Or.inl ⟨expect_skipBlanks_append (List.cons_ne_nil _ _) hclose, rfl⟩
    · have hne := ne_nil_of_readItems hitems
      have hlength : 1 ≤ (skipBlanks t).length := List.length_pos_iff.mpr hne
      rw [skipBlanks_append hne, expect_append_of_length [0x5D] hlength, hclose]
      exact Or.inr ⟨rfl, items, ih.items hitems hm q, rfl⟩
  · refine Or.inr (Or.inr (Or.inr (Or.inl ⟨t ++ q, rfl, ?_⟩)))
    rcases hobject with ⟨hclose, rfl⟩ | ⟨hclose, fields, hfields, rfl⟩
    · exact Or.inl ⟨expect_skipBlanks_append (List.cons_ne_nil _ _) hclose, rfl⟩
    · have hne := ne_nil_of_readFields hfields
      have hlength : 1 ≤ (skipBlanks t).length := List.length_pos_iff.mpr hne
      rw [skipBlanks_append hne, expect_append_of_length [0x7D] hlength, hclose]
      exact Or.inr ⟨rfl, fields, ih.fields hfields hm q, rfl⟩
  · exact Or.inr (Or.inr (Or.inr (Or.inr
      (readNumber_append hdigits (hnumber (isNumber_of_readNumber hdigits))))))

theorem Continues.items_succ {n : Nat} (ih : Continues n) {items : List Json}
    (h : readItems (n + 1) s = .ok (items, r)) {m : Nat} (hm : n ≤ m) (q : Bytes) :
    readItems (m + 1) (s ++ q) = .ok (items, r ++ q) := by
  obtain ⟨j, rest, hvalue, hmore⟩ := readItems_succ_iff.mp h
  refine readItems_succ_iff.mpr ⟨j, rest ++ q, ?_, ?_⟩
  · -- a comma or a bracket follows
    refine ih.value hvalue (fun _ => ?_) hm q
    rcases hmore with ⟨t, tail, hcomma, -⟩ | ⟨-, hclose, -⟩
    · exact ne_nil_of_expect (List.cons_ne_nil _ _) hcomma
    · exact ne_nil_of_expect (List.cons_ne_nil _ _) hclose
  · rcases hmore with ⟨t, tail, hcomma, htail, rfl⟩ | ⟨hcomma, hclose, rfl⟩
    · have hcomma' := expect_skipBlanks_append (q := q) (List.cons_ne_nil _ _) hcomma
      refine Or.inl ⟨t ++ q, tail, hcomma', ?_, rfl⟩
      rw [skipBlanks_append (ne_nil_of_readItems htail)]
      exact ih.items htail hm q
    · exact Or.inr ⟨expect_skipBlanks_append_eq_none hcomma hclose,
        expect_skipBlanks_append (List.cons_ne_nil _ _) hclose, rfl⟩

theorem Continues.fields_succ {n : Nat} (ih : Continues n) {fields : List (Bytes × Json)}
    (h : readFields (n + 1) s = .ok (fields, r)) {m : Nat} (hm : n ≤ m) (q : Bytes) :
    readFields (m + 1) (s ++ q) = .ok (fields, r ++ q) := by
  obtain ⟨t, key, rest, hquote, hkey, t', j, rest', hcolon, hvalue, hmore⟩ :=
    readFields_succ_iff.mp h
  refine readFields_succ_iff.mpr ⟨t ++ q, key, rest ++ q, expect_append hquote,
    readString_append hkey, t' ++ q, j, rest' ++ q,
    expect_skipBlanks_append (List.cons_ne_nil _ _) hcolon, ?_, ?_⟩
  · rw [skipBlanks_append (ne_nil_of_readValue hvalue)]
    -- a comma or a brace follows
    refine ih.value hvalue (fun _ => ?_) hm q
    rcases hmore with ⟨t'', tail, hcomma, -⟩ | ⟨-, hclose, -⟩
    · exact ne_nil_of_expect (List.cons_ne_nil _ _) hcomma
    · exact ne_nil_of_expect (List.cons_ne_nil _ _) hclose
  · rcases hmore with ⟨t'', tail, hcomma, htail, rfl⟩ | ⟨hcomma, hclose, rfl⟩
    · have hcomma' := expect_skipBlanks_append (q := q) (List.cons_ne_nil _ _) hcomma
      refine Or.inl ⟨t'' ++ q, tail, hcomma', ?_, rfl⟩
      rw [skipBlanks_append (ne_nil_of_readFields htail)]
      exact ih.fields htail hm q
    · exact Or.inr ⟨expect_skipBlanks_append_eq_none hcomma hclose,
        expect_skipBlanks_append (List.cons_ne_nil _ _) hclose, rfl⟩

/-- **What was read is read again when the text goes on.** -/
theorem continues (n : Nat) : Continues n := by
  induction n with
  | zero =>
    constructor
    · intro s j r h
      cases h
    · intro s items r h
      cases h
    · intro s fields r h
      cases h
  | succ n ih =>
    constructor
    · intro s j r h hnumber m hm q
      obtain ⟨m, rfl⟩ := Nat.exists_eq_add_one_of_ne_zero (Nat.ne_zero_of_lt hm)
      exact ih.value_succ h hnumber (Nat.le_of_succ_le_succ hm) q
    · intro s items r h m hm q
      obtain ⟨m, rfl⟩ := Nat.exists_eq_add_one_of_ne_zero (Nat.ne_zero_of_lt hm)
      exact ih.items_succ h (Nat.le_of_succ_le_succ hm) q
    · intro s fields r h m hm q
      obtain ⟨m, rfl⟩ := Nat.exists_eq_add_one_of_ne_zero (Nat.ne_zero_of_lt hm)
      exact ih.fields_succ h (Nat.le_of_succ_le_succ hm) q

/-! ## 4. Whole texts -/

theorem withoutMark_append {n : Nat} {j : Json}
    (h : readValue n (skipBlanks (withoutMark s)) = .ok (j, r)) :
    withoutMark (s ++ q) = withoutMark s ++ q := by
  unfold withoutMark at h ⊢
  cases hmark : expect [0xEF, 0xBB, 0xBF] s with
  | some t =>
    rw [expect_append hmark]
    rfl
  | none =>
    rw [hmark, Option.getD_none] at h
    -- no value begins with the first byte of a mark
    cases hmark' : expect [0xEF, 0xBB, 0xBF] (s ++ q) with
    | none => rfl
    | some t =>
      rw [expect_eq_some_iff] at hmark'
      cases s with
      | nil => exact absurd rfl (ne_nil_of_readValue h)
      | cons b s =>
        obtain ⟨rfl, -⟩ := List.cons.inj hmark'
        obtain ⟨b, t', hb, hne, -⟩ := begins_of_readValue h
        exact absurd (List.cons.inj hb).1.symm hne

/-- **A text that is an object has no other value before its end**: what parses as far as it has
    come parses to that object. -/
theorem parse?_append_of_object {j : Json} {fields : List (Bytes × Json)}
    (h : parse? s = some j) (hwhole : parse? (s ++ q) = some (.obj fields)) : j = .obj fields := by
  obtain ⟨r, hvalue, -⟩ := parse?_eq_some_iff.mp h
  obtain ⟨r', hobject, -⟩ := parse?_eq_some_iff.mp hwhole
  have hne := ne_nil_of_readValue hvalue
  rw [withoutMark_append hvalue, skipBlanks_append hne] at hobject
  -- the object begins with a brace, and so what was read is no number
  have hnumber : j.isNumber = true → r ≠ [] := by
    intro hj
    obtain ⟨b, t, hb, -, hbegins⟩ := begins_of_readValue hvalue
    obtain ⟨t', ht'⟩ := begins_of_object hobject
    rw [hb] at ht'
    have hbrace := hbegins hj
    rw [(List.cons.inj ht').1] at hbrace
    exact absurd hbrace (by decide)
  have hagain := (continues _).value hvalue hnumber (m := 2 * (withoutMark s ++ q).length + 2)
    (by rw [List.length_append]; omega) q
  rw [hagain] at hobject
  exact congrArg Prod.fst (Except.ok.inj hobject)

end ChatRelay.Json
