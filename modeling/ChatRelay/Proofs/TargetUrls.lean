import ChatRelay.Url

/-!
# The version of a target URL

What a configured base says is a relation here (`Reads`), and that a text ends in a version a
statement about its parts (`EndsInVersion`); both are decided by the functions that build URLs
(`reads_iff`, `endsInVersion_iff`).

* `Url.target_inserts_version` -- the parts of a URL: the version stands in it exactly when the base
  has neither a version nor the mark. A closing slash of the base does not matter, and a base that
  was built already gets no second version.
-/

namespace ChatRelay.Url

variable {s t base b : Bytes} {c : UInt8} {asIs : Bool}

/-! ## 1. What a base says -/

/-- The last byte of the text is `c`. -/
def EndsIn (c : UInt8) (s : Bytes) : Prop :=
  ∃ t, s = t ++ [c]

theorem getLast?_eq_iff : s.getLast? = some c ↔ EndsIn c s :=
  List.getLast?_eq_some_iff

/-- The second text is the first one without one closing slash, if that has any. -/
inductive Unslashed : Bytes → Bytes → Prop where
  | slash (t : Bytes) : Unslashed (t ++ [0x2F]) t
  | bare {s : Bytes} (h : ¬ EndsIn 0x2F s) : Unslashed s s

/-- **What a configured base says**: the base proper, and whether it is marked to be used as it is.
    The mark is a closing `#`, and a slash counts neither behind it nor before it. -/
inductive Reads : Bytes → Bytes → Bool → Prop where
  | plain {base b : Bytes} (slash : Unslashed base b) (unmarked : ¬ EndsIn 0x23 b) :
      Reads base b false
  | marked {base t b : Bytes} (slash : Unslashed base (t ++ [0x23])) (before : Unslashed t b) :
      Reads base b true

theorem dropSlash_append_slash (t : Bytes) : dropSlash (t ++ [0x2F]) = t := by
  rw [dropSlash, if_pos List.getLast?_concat, List.dropLast_concat]

theorem dropSlash_of_not_endsIn (h : ¬ EndsIn 0x2F s) : dropSlash s = s :=
  if_neg fun hlast => h (getLast?_eq_iff.mp hlast)

theorem unslashed_iff : Unslashed s t ↔ dropSlash s = t := by
  constructor
  · rintro (_ | hbare)
    · exact dropSlash_append_slash t
    · exact dropSlash_of_not_endsIn hbare
  · rintro rfl
    by_cases h : EndsIn 0x2F s
    · obtain ⟨t, rfl⟩ := h
      rw [dropSlash_append_slash]
      exact .slash t
    · rw [dropSlash_of_not_endsIn h]
      exact .bare h

theorem readBase_of_unmarked (h : ¬ EndsIn 0x23 (dropSlash base)) :
    readBase base = (dropSlash base, false) :=
  if_neg fun hlast => h (getLast?_eq_iff.mp hlast)

theorem readBase_of_marked (h : dropSlash base = t ++ [0x23]) :
    readBase base = (dropSlash t, true) := by
  rw [readBase, h, List.dropLast_concat]
  exact if_pos List.getLast?_concat

/-- **A base says one thing**, and that is what is read off it. -/
theorem reads_iff : Reads base b asIs ↔ readBase base = (b, asIs) := by
  constructor
  · rintro (⟨slash, unmarked⟩ | ⟨slash, before⟩)
    · rw [unslashed_iff] at slash
      rw [← slash] at unmarked ⊢
      exact readBase_of_unmarked unmarked
    · rw [unslashed_iff] at slash before
      rw [readBase_of_marked slash, before]
  · intro h
    by_cases hmark : EndsIn 0x23 (dropSlash base)
    · obtain ⟨t, ht⟩ := hmark
      rw [readBase_of_marked ht] at h
      cases h
      exact .marked (unslashed_iff.mpr ht) (unslashed_iff.mpr rfl)
    · rw [readBase_of_unmarked hmark] at h
      cases h
      exact .plain (unslashed_iff.mpr rfl) hmark

/-! ## 2. Versions -/

/-- **The text ends in a version**: `/v`, one or more digits, and any number of small letters. -/
def EndsInVersion (s : Bytes) : Prop :=
  ∃ stem digits letters, s = stem ++ Bytes.ofString "/v" ++ digits ++ letters ∧ digits ≠ [] ∧
    (∀ d ∈ digits, Bytes.isDigit d = true) ∧ ∀ l ∈ letters, isSmallLetter l = true

theorem isSmallLetter_of_isDigit (h : Bytes.isDigit c = true) : isSmallLetter c = false := by
  simp only [Bytes.isDigit, Bool.and_eq_true, decide_eq_true_eq, UInt8.le_iff_toNat_le] at h
  simp only [isSmallLetter, Bool.and_eq_false_iff, decide_eq_false_iff_not, UInt8.le_iff_toNat_le]
  left
  have hnine : (0x39 : UInt8).toNat = 0x39 := rfl
  have ha : (0x61 : UInt8).toNat = 0x61 := rfl
  omega

/-- From behind, a version is letters, then digits, then its mark. -/
theorem endsInVersion_of_reverse (before digits letters : Bytes)
    (h : s.reverse = letters ++ (digits ++ 0x76 :: 0x2F :: before)) (hne : digits ≠ [])
    (hdigits : ∀ d ∈ digits, Bytes.isDigit d = true)
    (hletters : ∀ l ∈ letters, isSmallLetter l = true) : endsInVersion s = true := by
  have hstop : (digits ++ 0x76 :: 0x2F :: before).dropWhile isSmallLetter =
      digits ++ 0x76 :: 0x2F :: before := by
    obtain ⟨d, rest, rfl⟩ := List.exists_cons_of_ne_nil hne
    have hd : isSmallLetter d = false := isSmallLetter_of_isDigit (hdigits d List.mem_cons_self)
    rw [List.cons_append, List.dropWhile_cons_of_neg (by rw [hd]; exact Bool.false_ne_true)]
  have hv : ¬ Bytes.isDigit 0x76 = true := by decide
  have hmark : Bytes.ofString "v/" = [0x76, 0x2F] := by decide
  rw [endsInVersion, h, List.dropWhile_append_of_pos hletters, hstop,
    List.takeWhile_append_of_pos hdigits, List.dropWhile_append_of_pos hdigits,
    List.takeWhile_cons_of_neg hv, List.dropWhile_cons_of_neg hv, List.append_nil, hmark]
  simpa using hne

theorem endsInVersion_iff : endsInVersion s = true ↔ EndsInVersion s := by
  constructor
  · intro h
    have hmark : Bytes.ofString "/v" = (Bytes.ofString "v/").reverse := by decide
    simp only [endsInVersion, Bool.and_eq_true, Bool.not_eq_true', List.isEmpty_eq_false_iff] at h
    obtain ⟨hne, hbefore⟩ := h
    obtain ⟨before, hbefore⟩ := List.isPrefixOf_iff_prefix.mp hbefore
    refine ⟨before.reverse, ((s.reverse.dropWhile isSmallLetter).takeWhile Bytes.isDigit).reverse,
      (s.reverse.takeWhile isSmallLetter).reverse, ?_, fun h => hne (List.reverse_eq_nil_iff.mp h),
      fun d hd => ?_, fun l hl => ?_⟩
    · rw [hmark, ← List.reverse_append, hbefore, ← List.reverse_append,
        List.takeWhile_append_dropWhile, ← List.reverse_append, List.takeWhile_append_dropWhile,
        List.reverse_reverse]
    · exact List.all_eq_true.mp List.all_takeWhile d (List.mem_reverse.mp hd)
    · exact List.all_eq_true.mp List.all_takeWhile l (List.mem_reverse.mp hl)
  · rintro ⟨stem, digits, letters, rfl, hne, hdigits, hletters⟩
    have hmark : (Bytes.ofString "/v").reverse = [0x76, 0x2F] := by decide
    refine endsInVersion_of_reverse stem.reverse digits.reverse letters.reverse ?_
      (fun h => hne (List.reverse_eq_nil_iff.mp h))
      (fun d hd => hdigits d (List.mem_reverse.mp hd))
      fun l hl => hletters l (List.mem_reverse.mp hl)
    simp only [List.reverse_append, hmark, List.cons_append, List.nil_append]

instance (s : Bytes) : Decidable (EndsInVersion s) :=
  decidable_of_iff _ endsInVersion_iff

/-- A version that is put behind a text is a version. -/
theorem endsInVersion_append (b : Bytes) : EndsInVersion (b ++ Bytes.ofString "/v1") := by
  refine ⟨b, [0x31], [], ?_, List.cons_ne_nil _ _, fun d hd => ?_, List.forall_mem_nil _⟩
  · have hparts : Bytes.ofString "/v1" = Bytes.ofString "/v" ++ [0x31] := by decide
    rw [hparts, List.append_nil, List.append_assoc]
  · rw [List.mem_singleton.mp hd]
    rfl

/-- A version closes with a digit or a letter. -/
theorem EndsInVersion.exists_getLast? (h : EndsInVersion s) :
    ∃ c, s.getLast? = some c ∧ (Bytes.isDigit c = true ∨ isSmallLetter c = true) := by
  obtain ⟨stem, digits, letters, rfl, hne, hdigits, hletters⟩ := h
  cases hl : letters.getLast? with
  | some l =>
    refine ⟨l, ?_, .inr (hletters l (List.mem_of_getLast? hl))⟩
    rw [List.getLast?_append, hl, Option.some_or]
  | none =>
    refine ⟨digits.getLast hne, ?_, .inl (hdigits _ (List.getLast_mem hne))⟩
    rw [List.getLast?_append, hl, Option.none_or, List.getLast?_append,
      List.getLast?_eq_some_getLast hne, Option.some_or]

/-- A base that ends in a version says just itself. -/
theorem EndsInVersion.reads (h : EndsInVersion b) : Reads b b false := by
  obtain ⟨c, hc, hkind⟩ := h.exists_getLast?
  have hends : ∀ mark, EndsIn mark b → mark = c := fun mark hmark => by
    rw [← getLast?_eq_iff, hc] at hmark
    exact (Option.some.inj hmark).symm
  refine .plain (.bare fun hslash => ?_) fun hmark => ?_
  · rw [← hends _ hslash] at hkind
    exact absurd hkind (by decide)
  · rw [← hends _ hmark] at hkind
    exact absurd hkind (by decide)

/-! ## 3. The URL -/

variable {endpoint query : Bytes}

/-- The parts of a URL, by what its base says. -/
theorem target_of_reads (h : Reads base b asIs) :
    target base endpoint query =
      b ++ (if asIs = false ∧ ¬ EndsInVersion b then Bytes.ofString "/v1" else []) ++ endpoint ++
        (if query = [] then [] else 0x3F :: query) := by
  have hversion : (if asIs || endsInVersion b then [] else Bytes.ofString "/v1") =
      if asIs = false ∧ ¬ EndsInVersion b then Bytes.ofString "/v1" else [] := by
    simp only [← endsInVersion_iff]
    cases asIs <;> cases endsInVersion b <;> simp
  simp only [target, reads_iff.mp h, hversion, List.isEmpty_iff]

/-- The URL of nothing below an unmarked base ends in a version. -/
theorem endsInVersion_target (h : Reads base b false) : EndsInVersion (target base [] []) := by
  rw [target_of_reads h, if_pos rfl, List.append_nil, List.append_nil]
  by_cases hb : EndsInVersion b
  · rwa [if_neg fun hnot => hnot.2 hb, List.append_nil]
  · rw [if_pos ⟨rfl, hb⟩]
    exact endsInVersion_append b

/-- **A URL has the base proper, the version, the endpoint and the query.** The version is inserted
exactly when the base has neither the mark nor a version of its own. So a closing slash behind a
base without one changes nothing, and neither does building on a base that was built already. -/
theorem target_inserts_version (base endpoint query : Bytes) :
    (∃ b asIs, Reads base b asIs) ∧
    (∀ b asIs, Reads base b asIs → target base endpoint query =
      b ++ (if asIs = false ∧ ¬ EndsInVersion b then Bytes.ofString "/v1" else []) ++ endpoint ++
        (if query = [] then [] else 0x3F :: query)) ∧
    (¬ EndsIn 0x2F base →
      target (base ++ [0x2F]) endpoint query = target base endpoint query) ∧
    ((∃ b, Reads base b false) →
      target (target base [] []) endpoint query = target base endpoint query) := by
  refine ⟨⟨_, _, reads_iff.mpr rfl⟩, fun b asIs => target_of_reads, fun hbare => ?_, ?_⟩
  · have hread : readBase (base ++ [0x2F]) = readBase base := by
      rw [readBase, readBase, dropSlash_append_slash, dropSlash_of_not_endsIn hbare]
    rw [target, target, hread]
  · rintro ⟨b, hb⟩
    have hbuilt := endsInVersion_target hb
    rw [target_of_reads hbuilt.reads, if_neg fun hnot => hnot.2 hbuilt, target_of_reads hb,
      target_of_reads hb]
    simp only [if_true, List.append_nil]

/-- A segment that only begins like a version gets one behind it, and no second one. -/
theorem target_inserts_version_once :
    let base := Bytes.ofString "https://h/v1b3"
    let url := Bytes.ofString "https://h/v1b3/v1/messages?beta"
    target base "/messages" "beta" = url ∧ target (base ++ [0x2F]) "/messages" "beta" = url ∧
      target (target base [] []) "/messages" "beta" = url := by
  intro base url
  obtain ⟨-, hparts, hslash, hbuilt⟩ := target_inserts_version base "/messages" "beta"
  have hreads : Reads base base false := reads_iff.mpr (by decide +kernel)
  have hbare : ¬ EndsIn 0x2F base := fun hends => by
    rw [← getLast?_eq_iff] at hends
    exact absurd hends (by decide +kernel)
  have hurl : target base "/messages" "beta" = url := by
    rw [hparts base false hreads]
    decide +kernel
  exact ⟨hurl, (hslash hbare).trans hurl, (hbuilt ⟨base, hreads⟩).trans hurl⟩

end ChatRelay.Url
