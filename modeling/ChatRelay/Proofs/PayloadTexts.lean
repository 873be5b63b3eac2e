import Mathlib.Data.List.DropRight
import Mathlib.Data.List.Infix
import ChatRelay.Proofs.Lines
import ChatRelay.Proofs.ReaderPrefix
import ChatRelay.Proofs.Substrings
import ChatRelay.Transcoder.Passthrough

/-!
# Texts that differ in payload only

The payload of a stream is in the strings of a few fields (`payloadKeys`). Two texts are alike when
they are the same but for these strings, and each of them is as long as the other; whether the texts
are JSON as a whole does not matter.

* `Bytes.Alike` -- the relation, read from left to right: a byte, a string that both have, or a
  field with a payload string of its own in each;
* `Alike.trim`, `Alike.withoutReturn`, `Alike.dropWhile` -- parts of alike texts are alike;
* `Alike.cons_quote` -- what stands behind an opening quote;
* `Alike.marksToolUseStop_eq` -- the mark of a tool-use stop is in both or in neither: it cannot
  begin within a payload string (`Json.Literal.escape_before_quote`).
-/

namespace ChatRelay

/-- The keys of the fields whose strings are payload: what the model says, and what an error
    says. -/
def payloadKeys : List Bytes :=
  ["content", "text", "thinking", "message"]

/-! ## 1. Strings -/

theorem Utf8.encode_ne_nil (c : Nat) : encode c ≠ [] := by
  unfold encode
  split
  · exact List.cons_ne_nil _ _
  · split
    · exact List.cons_ne_nil _ _
    · split <;> exact List.cons_ne_nil _ _

namespace Json

/-- Between quotes, `body` is a string, and `content` is what it says. -/
def Literal (body content : Bytes) : Prop :=
  readString (body ++ [0x22]) = .ok (content, [])

variable {mode : CharMode} {done content body s r : Bytes} {b : UInt8}

/-- A four-digit escape leads on, and what it adds stands between two characters. -/
theorem afterEscape?_eq_some {c : Nat} {high : Option Nat} {bytes : Bytes}
    (h : afterEscape? c high = some (bytes, mode)) :
    mode ≠ .escape ∧ (mode = .plain → bytes ≠ []) := by
  unfold afterEscape? at h
  split at h
  · split at h
    · cases h
      exact ⟨nofun, nofun⟩
    · split at h
      · cases h
      · cases h
        exact ⟨nofun, fun _ => Utf8.encode_ne_nil _⟩
  · split at h
    · rw [Option.some.injEq, Prod.mk.injEq] at h
      obtain ⟨rfl, rfl⟩ := h
      exact ⟨nofun, fun _ => Utf8.encode_ne_nil _⟩
    · cases h

/-- **One byte of a string**: it is the closing quote, or it leads to the next one and adds `more`.
    A backslash comes before an escape, a quote within the string is escaped, and only what has
    added something is between two characters. -/
theorem readChars_cons (h : readChars mode done (b :: s) = some (content, r)) :
    (mode = .plain ∧ b = 0x22 ∧ content = done.reverse ∧ r = s) ∨
      ∃ mode' more, readChars mode' (more ++ done) s = some (content, r) ∧
        (mode' = .escape → b = 0x5C) ∧ (mode' = .plain → more ≠ []) ∧
        (b = 0x22 → mode = .escape ∧ 0x22 ∈ more) := by
  cases mode with
  | plain =>
    rw [readChars] at h
    split at h
    · rename_i hb
      cases h
      exact .inl ⟨rfl, hb, rfl, rfl⟩
    · rename_i hquote
      refine .inr ?_
      split at h
      · rename_i hb
        exact ⟨_, [], h, fun _ => hb, CharMode.noConfusion, fun e => absurd e hquote⟩
      · split at h
        · cases h
        · exact ⟨_, [b], h, CharMode.noConfusion, fun _ => List.cons_ne_nil _ _,
            fun e => absurd e hquote⟩
  | escape =>
    rw [readChars] at h
    refine .inr ?_
    split at h
    · rename_i hb
      exact ⟨_, [], h, CharMode.noConfusion, CharMode.noConfusion,
        fun e => absurd (e.symm.trans hb) (by decide)⟩
    · split at h
      · rename_i e he
        refine ⟨_, [e], h, CharMode.noConfusion, fun _ => List.cons_ne_nil _ _, fun hb => ⟨rfl, ?_⟩⟩
        subst hb
        cases he
        exact List.mem_cons_self
      · cases h
  | digits left value high =>
    rw [readChars.eq_def] at h
    dsimp only at h
    refine .inr ?_
    split at h
    · cases h
    · rename_i d hd
      have hquote : b ≠ 0x22 := fun e => by
        subst e
        cases hd
      split at h
      · exact ⟨_, [], h, CharMode.noConfusion, CharMode.noConfusion, fun e => absurd e hquote⟩
      · split at h
        · rename_i bytes mode hafter
          obtain ⟨hmode, hbytes⟩ := afterEscape?_eq_some hafter
          refine ⟨_, bytes.reverse, h, fun e => absurd e hmode, fun e => ?_,
            fun e => absurd e hquote⟩
          exact fun hnil => hbytes e (List.reverse_eq_nil_iff.mp hnil)
        · cases h
  | lowSlash high =>
    rw [readChars] at h
    refine .inr ?_
    split at h
    · rename_i hb
      exact ⟨_, [], h, CharMode.noConfusion, CharMode.noConfusion,
        fun e => absurd (e.symm.trans hb) (by decide)⟩
    · cases h
  | lowLetter high =>
    rw [readChars] at h
    refine .inr ?_
    split at h
    · rename_i hb
      exact ⟨_, [], h, CharMode.noConfusion, CharMode.noConfusion,
        fun e => absurd (e.symm.trans hb) (by decide)⟩
    · cases h

/-- What has been read of a string is a part of it. -/
theorem mem_of_readChars (h : readChars mode done s = some (content, r)) :
    ∀ c ∈ done, c ∈ content := by
  induction s generalizing mode done with
  | nil => cases h
  | cons b s ih =>
    obtain ⟨-, -, rfl, -⟩ | ⟨mode', more, h, -⟩ := readChars_cons h
    · exact fun c hc => List.mem_reverse.mpr hc
    · exact fun c hc => ih h c (List.mem_append_right more hc)

/-- Only the empty string says nothing. -/
theorem ne_nil_of_readChars (h : readChars mode done s = some (content, r))
    (hmode : mode = .plain → done ≠ []) : content ≠ [] := by
  induction s generalizing mode done with
  | nil => cases h
  | cons b s ih =>
    obtain ⟨rfl, -, rfl, -⟩ | ⟨mode', more, h, -, hmore, -⟩ := readChars_cons h
    · exact fun e => hmode rfl (List.reverse_eq_nil_iff.mp e)
    · exact ih h fun e => List.append_ne_nil_of_left_ne_nil (hmore e) done

/-- A quote that does not close the string is escaped, and the string says it. -/
theorem escape_of_readChars {u v : Bytes} (hv : v ≠ [])
    (h : readChars mode done (u ++ 0x22 :: v) = some (content, [])) :
    0x22 ∈ content ∧ (u.getLast? = some 0x5C ∨ u = [] ∧ mode = .escape) := by
  induction u generalizing mode done with
  | nil =>
    obtain ⟨-, -, -, hnil⟩ | ⟨mode', more, h, -, -, hquote⟩ := readChars_cons h
    · exact absurd hnil.symm hv
    · obtain ⟨hmode, hmore⟩ := hquote rfl
      exact ⟨mem_of_readChars h _ (List.mem_append_left done hmore), .inr ⟨rfl, hmode⟩⟩
  | cons b u ih =>
    obtain ⟨-, -, -, hnil⟩ | ⟨mode', more, h, hslash, -⟩ := readChars_cons h
    · exact absurd hnil.symm (by simp)
    · obtain ⟨hmem, hlast | ⟨rfl, hmode⟩⟩ := ih h
      · refine ⟨hmem, .inl ?_⟩
        rw [List.getLast?_cons, hlast]
        rfl
      · refine ⟨hmem, .inl ?_⟩
        rw [hslash hmode]
        rfl

namespace Literal

theorem readChars_eq (h : Literal body content) :
    readChars .plain [] (body ++ [0x22]) = some (content, []) := by
  unfold Literal readString at h
  split at h
  · rename_i hchars
    split at h
    · cases h
      exact hchars
    · cases h
  · cases h

/-- A string is read, whatever comes behind it. -/
theorem readString_eq (h : Literal body content) (s : Bytes) :
    readString (body ++ 0x22 :: s) = .ok (content, s) := by
  have hread := readString_append (q := s) h
  rwa [List.append_assoc] at hread

/-- A string says nothing when there is nothing between its quotes. -/
theorem isEmpty_eq (h : Literal body content) : content.isEmpty = body.isEmpty := by
  have hchars := h.readChars_eq
  cases body with
  | nil =>
    cases hchars
    rfl
  | cons b body =>
    obtain ⟨-, -, -, hnil⟩ | ⟨mode', more, hchars, -, hmore, -⟩ := readChars_cons hchars
    · exact absurd hnil.symm (by simp)
    · have hne : content ≠ [] :=
        ne_nil_of_readChars hchars fun e => List.append_ne_nil_of_left_ne_nil (hmore e) []
      rw [List.isEmpty_cons]
      exact List.isEmpty_eq_false_iff.mpr hne

/-- **A quote within a string is escaped.** -/
theorem escape_before_quote {u v : Bytes} (h : Literal (u ++ 0x22 :: v) content) :
    0x22 ∈ content ∧ u.getLast? = some 0x5C := by
  have hchars := h.readChars_eq
  rw [List.append_assoc, List.cons_append] at hchars
  obtain ⟨hmem, hlast | ⟨-, hmode⟩⟩ := escape_of_readChars (by simp) hchars
  · exact ⟨hmem, hlast⟩
  · cases hmode

/-- A string that says no quote has none. -/
theorem quote_notMem (h : Literal body content) (hcontent : 0x22 ∉ content) : 0x22 ∉ body := by
  intro hmem
  obtain ⟨u, v, rfl⟩ := List.append_of_mem hmem
  exact hcontent h.escape_before_quote.1

end Literal

end Json

/-! ## 2. Alike texts -/

namespace Bytes

/-- A string of this body, and what stands behind it. -/
def quoted (body s : Bytes) : Bytes :=
  0x22 :: (body ++ 0x22 :: s)

/-- The colon between a key and its value, with the blanks around it. -/
def IsColon (gap : Bytes) : Prop :=
  ∃ before after, gap = before ++ 0x3A :: after ∧ (∀ b ∈ before, isBlank b = true) ∧
    ∀ b ∈ after, isBlank b = true

/-- **Texts that are the same but for payload strings of the same length.** A quote outside strings
    opens one; behind a payload string there is no colon, which would make it a key. -/
inductive Alike : Bytes → Bytes → Prop where
  /-- The same from here on. -/
  | same (s : Bytes) : Alike s s
  /-- A byte outside strings. -/
  | byte {b : UInt8} {s s' : Bytes} (hb : b ≠ 0x22) (h : Alike s s') : Alike (b :: s) (b :: s')
  /-- A string that both have. -/
  | string {body content s s' : Bytes} (hbody : Json.Literal body content) (h : Alike s s') :
      Alike (quoted body s) (quoted body s')
  /-- A field with a payload string of its own in each. -/
  | payload {key name gap body body' content content' s s' : Bytes} (hkey : Json.Literal key name)
      (hname : name ∈ payloadKeys) (hgap : IsColon gap) (hbody : Json.Literal body content)
      (hbody' : Json.Literal body' content') (hlength : body'.length = body.length)
      (hbehind : s.head? ≠ some 0x3A) (h : Alike s s') :
      Alike (quoted key (gap ++ quoted body s)) (quoted key (gap ++ quoted body' s'))

/-- A colon, and behind it a string of its own in each. -/
def Swapped (r r' : Bytes) : Prop :=
  ∃ gap body body' content content' s s', IsColon gap ∧ Json.Literal body content ∧
    Json.Literal body' content' ∧ body'.length = body.length ∧ r = gap ++ quoted body s ∧
    r' = gap ++ quoted body' s' ∧ Alike s s'

theorem quoted_eq (body s : Bytes) : quoted body s = 0x22 :: (body ++ [0x22]) ++ s := by
  simp [quoted]

theorem length_quoted (body s : Bytes) : (quoted body s).length = body.length + s.length + 2 := by
  simp [quoted]
  omega

theorem quoted_append (body s t : Bytes) : quoted body (s ++ t) = quoted body s ++ t := by
  simp [quoted]

theorem prefix_quoted (body s : Bytes) : quoted body [] <+: quoted body s :=
  ⟨s, (quoted_append body [] s).symm⟩

theorem getLast?_append_quoted (u body s : Bytes) :
    (u ++ quoted body s).getLast? = s.getLast?.or (some 0x22) := by
  rw [quoted_eq, ← List.append_assoc, List.getLast?_append, ← List.cons_append,
    ← List.append_assoc, List.getLast?_concat]

theorem dropLast_append_quoted {s : Bytes} (hs : s ≠ []) (u body : Bytes) :
    (u ++ quoted body s).dropLast = u ++ quoted body s.dropLast := by
  rw [quoted_eq, quoted_eq, ← List.append_assoc, ← List.append_assoc,
    List.dropLast_append_of_ne_nil hs]

namespace Alike

variable {s s' t u : Bytes} {b : UInt8}

theorem head?_eq (h : Alike s s') : s.head? = s'.head? := by
  cases h <;> rfl

theorem symm (h : Alike s s') : Alike s' s := by
  induction h with
  | same s => exact .same s
  | byte hb _ ih => exact .byte hb ih
  | string hbody _ ih => exact .string hbody ih
  | payload hkey hname hgap hbody hbody' hlength hbehind h ih =>
    rw [h.head?_eq] at hbehind
    exact .payload hkey hname hgap hbody' hbody hlength.symm hbehind ih

theorem length_eq (h : Alike s s') : s'.length = s.length := by
  induction h with
  | same s => rfl
  | byte _ _ ih => rw [List.length_cons, List.length_cons, ih]
  | string _ _ ih => rw [length_quoted, length_quoted, ih]
  | payload _ _ _ _ _ hlength _ _ ih =>
    rw [length_quoted, List.length_append, length_quoted, length_quoted, List.length_append,
      length_quoted, hlength, ih]

theorem eq_nil (h : Alike [] s) : s = [] :=
  List.length_eq_zero_iff.mp h.length_eq

/-- A byte that is no quote stands in both. -/
theorem cons_of_ne (hb : b ≠ 0x22) (h : Alike (b :: s) t) : ∃ s', t = b :: s' ∧ Alike s s' := by
  cases h with
  | same => exact ⟨s, rfl, .same s⟩
  | byte _ h => exact ⟨_, rfl, h⟩
  | string => exact absurd rfl hb
  | payload => exact absurd rfl hb

/-- **Behind an opening quote** the same string stands in both, and what follows it is alike; or it
    is a payload key, and a string of its own follows in each. Or else the texts are the same. -/
theorem cons_quote (h : Alike (0x22 :: s) t) :
    ∃ s', t = 0x22 :: s' ∧
      (s' = s ∨
        ∃ body content r r', Json.Literal body content ∧ s = body ++ 0x22 :: r ∧
          s' = body ++ 0x22 :: r' ∧ (Alike r r' ∨ content ∈ payloadKeys ∧ Swapped r r')) := by
  cases h with
  | same => exact ⟨s, rfl, .inl rfl⟩
  | byte hb => exact absurd rfl hb
  | string hbody h => exact ⟨_, rfl, .inr ⟨_, _, _, _, hbody, rfl, rfl, .inl h⟩⟩
  | payload hkey hname hgap hbody hbody' hlength _ h =>
    refine ⟨_, rfl, .inr ⟨_, _, _, _, hkey, rfl, rfl, .inr ⟨hname, ?_⟩⟩⟩
    exact ⟨_, _, _, _, _, _, _, hgap, hbody, hbody', hlength, rfl, rfl, h⟩

/-- A text without quotes is alike to itself only. -/
theorem eq_of_quote_notMem (h : Alike s s') (hs : 0x22 ∉ s) : s' = s := by
  induction h with
  | same => rfl
  | byte _ _ ih => rw [ih fun hmem => hs (List.mem_cons_of_mem _ hmem)]
  | string => exact absurd List.mem_cons_self hs
  | payload => exact absurd List.mem_cons_self hs

/-- Behind a beginning without quotes the texts are alike. -/
theorem of_append {word : Bytes} (hword : 0x22 ∉ word) (h : Alike (word ++ s) t) :
    ∃ s', t = word ++ s' ∧ Alike s s' := by
  induction word generalizing t with
  | nil => exact ⟨t, rfl, h⟩
  | cons b word ih =>
    obtain ⟨hb, hword⟩ := List.ne_and_not_mem_of_not_mem_cons hword
    obtain ⟨t', rfl, hrest⟩ := cons_of_ne (Ne.symm hb) h
    obtain ⟨s', rfl, hbehind⟩ := ih hword hrest
    exact ⟨s', rfl, hbehind⟩

/-! ## 3. Parts of alike texts -/

/-- What stops at a quote drops the same from both. -/
theorem dropWhile {p : UInt8 → Bool} (hp : p 0x22 = false) (h : Alike s s') :
    Alike (s.dropWhile p) (s'.dropWhile p) := by
  have hquoted (body s : Bytes) : (quoted body s).dropWhile p = quoted body s :=
    List.dropWhile_cons_of_neg (by simp [hp])
  induction h with
  | same => exact .same _
  | @byte b s s' hb h ih =>
    rw [List.dropWhile_cons, List.dropWhile_cons]
    split
    · exact ih
    · exact .byte hb h
  | string hbody h =>
    rw [hquoted, hquoted]
    exact .string hbody h
  | payload hkey hname hgap hbody hbody' hlength hbehind h =>
    rw [hquoted, hquoted]
    exact .payload hkey hname hgap hbody hbody' hlength hbehind h

theorem takeWhile_eq {p : UInt8 → Bool} (hp : p 0x22 = false) (h : Alike s s') :
    s.takeWhile p = s'.takeWhile p := by
  have hquoted (body s : Bytes) : (quoted body s).takeWhile p = [] :=
    List.takeWhile_cons_of_neg (by simp [hp])
  induction h with
  | same => rfl
  | byte _ _ ih => rw [List.takeWhile_cons, List.takeWhile_cons, ih]
  | string => rw [hquoted, hquoted]
  | payload => rw [hquoted, hquoted]

/-- A string ends with its quote. -/
theorem getLast?_eq (h : Alike s s') : s.getLast? = s'.getLast? := by
  induction h with
  | same => rfl
  | byte _ _ ih => rw [List.getLast?_cons, List.getLast?_cons, ih]
  | @string body _ s s' _ _ ih =>
    exact (getLast?_append_quoted [] body s).trans
      (ih ▸ (getLast?_append_quoted [] body s').symm)
  | payload _ _ _ _ _ _ _ _ ih =>
    rw [quoted_append, quoted_append, getLast?_append_quoted, getLast?_append_quoted, ih]

/-- The last byte, if it closes no string, is dropped from both. -/
theorem dropLast (h : Alike s s') (hlast : s.getLast? ≠ some 0x22) :
    Alike s.dropLast s'.dropLast := by
  -- what stands behind a string has a last byte, and it is not a quote either
  have hbehind {s s' : Bytes} (h : Alike s s') (hlast : s.getLast?.or (some 0x22) ≠ some 0x22) :
      s ≠ [] ∧ s' ≠ [] ∧ s.getLast? ≠ some 0x22 := by
    have hne : s ≠ [] := fun e => hlast (by rw [e]; rfl)
    refine ⟨hne, fun e => hne ?_, fun e => hlast (by rw [e]; rfl)⟩
    subst e
    exact h.symm.eq_nil
  induction h with
  | same => exact .same _
  | @byte b s s' hb h ih =>
    cases s with
    | nil =>
      rw [h.eq_nil]
      exact .same _
    | cons c s =>
      obtain ⟨c', t, rfl⟩ := List.exists_cons_of_length_eq_add_one h.length_eq
      rw [List.getLast?_cons_cons] at hlast
      exact .byte hb (ih hlast)
  | @string body content s s' hbody h ih =>
    rw [← List.nil_append (quoted body s), getLast?_append_quoted] at hlast
    obtain ⟨hne, hne', hlast⟩ := hbehind h hlast
    rw [← List.nil_append (quoted body s), ← List.nil_append (quoted body s'),
      dropLast_append_quoted hne, dropLast_append_quoted hne']
    exact .string hbody (ih hlast)
  | payload hkey hname hgap hbody hbody' hlength hcolon h ih =>
    rw [quoted_append, getLast?_append_quoted] at hlast
    obtain ⟨hne, hne', hlast⟩ := hbehind h hlast
    rw [quoted_append, quoted_append, dropLast_append_quoted hne, dropLast_append_quoted hne',
      ← quoted_append, ← quoted_append]
    refine .payload hkey hname hgap hbody hbody' hlength ?_ (ih hlast)
    rw [List.head?_dropLast]
    split
    · exact hcolon
    · nofun

theorem withoutReturn (h : Alike s s') : Alike (withoutReturn s) (withoutReturn s') := by
  rw [← LineReader.chop_eq, ← LineReader.chop_eq, LineReader.chop, LineReader.chop, h.getLast?_eq]
  split
  · rename_i hreturn
    refine h.dropLast ?_
    rw [h.getLast?_eq, hreturn]
    decide
  · exact h

theorem rdropWhile {p : UInt8 → Bool} (hp : p 0x22 = false) {s s' : Bytes} (h : Alike s s') :
    Alike (s.rdropWhile p) (s'.rdropWhile p) := by
  cases hs : s.getLast? with
  | none =>
    rw [List.getLast?_eq_none_iff] at hs
    subst hs
    rw [h.eq_nil]
    exact .same _
  | some b =>
    have hlt : s.dropLast.length < s.length := by
      cases s with
      | nil => cases hs
      | cons c s => simp
    have hs' := hs
    rw [h.getLast?_eq] at hs'
    rw [← List.dropLast_append_getLast? b hs, ← List.dropLast_append_getLast? b hs',
      List.rdropWhile_concat, List.rdropWhile_concat]
    split
    · rename_i hb
      refine rdropWhile hp (h.dropLast fun e => ?_)
      rw [Option.some.inj (hs.symm.trans e), hp] at hb
      cases hb
    · rw [List.dropLast_append_getLast? b hs, List.dropLast_append_getLast? b hs']
      exact h
termination_by s.length

theorem trim (h : Alike s s') : Alike s.trim s'.trim :=
  (h.dropWhile rfl).rdropWhile rfl

end Alike

/-! ## 4. Marks -/

/-- **A mark** that payload strings cannot be taken for: it begins with a key that has no escapes,
    followed by its colon at once, and the key of no payload string occurs in it. -/
structure IsMark (mark : Bytes) : Prop where
  begins : ∃ c rest value, mark = quoted (c :: rest) (0x3A :: value) ∧ 0x22 ∉ c :: rest ∧
    0x5C ∉ c :: rest ∧ isBlank c = false ∧ c ≠ 0x3A
  noKey : ∀ key name, Json.Literal key name → name ∈ payloadKeys → ¬ quoted key [] <:+: mark

/-- The texts begin with the same endings of the mark. -/
def Agree (mark s s' : Bytes) : Prop :=
  ∀ ending, ending <:+ mark → (ending <+: s ↔ ending <+: s')

variable {mark s s' u v : Bytes}

theorem Agree.append (h : Agree mark s s') (u : Bytes) : Agree mark (u ++ s) (u ++ s') := by
  induction u with
  | nil => exact h
  | cons b u ih =>
    intro ending hending
    cases ending with
    | nil => simp
    | cons c ending =>
      have hshorter : ending <:+ mark := (List.suffix_cons c ending).trans hending
      rw [List.cons_append, List.cons_append, List.cons_prefix_cons, List.cons_prefix_cons,
        ih ending hshorter]

/-- With the same bytes before them, the mark occurs in both or in neither. -/
theorem Agree.infix_append (h : Agree mark s s') (hmark : mark <:+: s ↔ mark <:+: s')
    (u : Bytes) : mark <:+: u ++ s ↔ mark <:+: u ++ s' := by
  induction u with
  | nil => exact hmark
  | cons b u ih =>
    rw [List.cons_append, List.cons_append, List.infix_cons_iff, List.infix_cons_iff, ih]
    exact or_congr_left (h.append (b :: u) mark List.suffix_rfl)

/-- Where the mark begins nowhere in a part, it is in what follows. -/
theorem infix_append_iff (h : ∀ w, w <:+ u → w ≠ [] → ¬ mark <+: w ++ v) :
    mark <:+: u ++ v ↔ mark <:+: v := by
  induction u with
  | nil => rfl
  | cons b u ih =>
    have hshorter : ∀ w, w <:+ u → w ≠ [] → ¬ mark <+: w ++ v :=
      fun w hw => h w (hw.trans (List.suffix_cons b u))
    rw [List.cons_append, List.infix_cons_iff, ih hshorter]
    exact or_iff_right (h (b :: u) List.suffix_rfl (List.cons_ne_nil _ _))

namespace IsMark

variable {word value body content key name gap : Bytes}

/-- A mark begins with a quote. -/
theorem infix_append_iff (hm : IsMark mark) (hu : 0x22 ∉ u) :
    mark <:+: u ++ v ↔ mark <:+: v := by
  obtain ⟨c, rest, value, rfl, -⟩ := hm.begins
  refine Bytes.infix_append_iff fun w hw hne hprefix => ?_
  cases w with
  | nil => exact hne rfl
  | cons b w =>
    obtain ⟨rfl, -⟩ := List.cons_prefix_cons.mp hprefix
    exact hu (hw.mem List.mem_cons_self)

/-- A key without escapes that begins before the end of a string ends with it. -/
theorem colon_behind_word (hquote : 0x22 ∉ word) (hslash : 0x5C ∉ word) (hne : word ≠ [])
    (hbody : Json.Literal (u ++ v) content)
    (h : quoted word (0x3A :: value) <+: 0x22 :: (v ++ 0x22 :: s)) : s.head? = some 0x3A := by
  obtain ⟨z, hz⟩ := (List.cons_prefix_cons.mp h).2
  rw [List.append_assoc, List.cons_append, List.cons_append] at hz
  obtain ⟨v', rfl, hv'⟩ | ⟨word', rfl, hword'⟩ := List.append_eq_append_iff.mp hz
  · cases v' with
    | nil => rw [← (List.cons.inj hv').2, List.head?_cons]
    | cons b v' =>
      -- the closing quote of the key would be one within the string, and so be escaped
      obtain ⟨rfl, -⟩ := List.cons.inj hv'
      rw [← List.append_assoc] at hbody
      have hlast := hbody.escape_before_quote.2
      rw [List.getLast?_append_of_ne_nil u hne] at hlast
      exact absurd (List.mem_of_getLast? hlast) hslash
  · cases word' with
    | nil => rw [(List.cons.inj hword').2, List.head?_cons]
    | cons b word' =>
      obtain ⟨rfl, -⟩ := List.cons.inj hword'
      exact absurd (List.mem_append_right v List.mem_cons_self) hquote

/-- Before a colon there are only blanks, and no mark begins with them. -/
theorem gap_head (hgap : IsColon gap) (t : Bytes) :
    ∃ b rest, gap ++ t = b :: rest ∧ (isBlank b = true ∨ b = 0x3A) ∧ 0x22 ∉ gap := by
  obtain ⟨before, after, rfl, hbefore, hafter⟩ := hgap
  have hnot {part : Bytes} (h : ∀ b ∈ part, isBlank b = true) : 0x22 ∉ part :=
    fun hmem => absurd (h _ hmem) (by decide)
  have hquote : 0x22 ∉ before ++ 0x3A :: after := by
    simp [hnot hbefore, hnot hafter]
  cases before with
  | nil => exact ⟨_, _, rfl, .inr rfl, hquote⟩
  | cons b before => exact ⟨_, _, rfl, .inl (hbefore b List.mem_cons_self), hquote⟩

/-- An ending of the mark goes no further than the key of a payload string. -/
theorem prefix_key (hm : IsMark mark) (hkey : Json.Literal key name) (hname : name ∈ payloadKeys)
    {ending t : Bytes} (hending : ending <:+ mark) (h : ending <+: quoted key t) :
    ending <+: quoted key [] := by
  refine (List.prefix_or_prefix_of_prefix h (prefix_quoted key t)).resolve_right fun hbeyond => ?_
  exact hm.noKey key name hkey hname (hbeyond.isInfix.trans hending.isInfix)

/-- **No mark begins within a payload field.** -/
theorem infix_payload_iff (hm : IsMark mark) (hkey : Json.Literal key name)
    (hname : name ∈ payloadKeys) (hgap : IsColon gap) (hbody : Json.Literal body content)
    (hbehind : s.head? ≠ some 0x3A) :
    mark <:+: quoted key (gap ++ quoted body s) ↔ mark <:+: 0x22 :: s := by
  have hkeyQuote : 0x22 ∉ key :=
    hkey.quote_notMem fun hmem => absurd (List.mem_flatten.mpr ⟨name, hname, hmem⟩) (by decide)
  obtain ⟨b, rest, hhead, hb, hgapQuote⟩ := gap_head hgap (quoted body s)
  obtain ⟨c, word, value, heq, hquote, hslash, hblank, hcolon⟩ := hm.begins
  have hne : c :: word ≠ [] := List.cons_ne_nil _ _
  -- not with the quote that opens the key
  have hopen : ¬ mark <+: quoted key (gap ++ quoted body s) := by
    intro h
    have hkeyOnly := hm.prefix_key hkey hname List.suffix_rfl h
    rw [heq] at hkeyOnly
    cases colon_behind_word (u := []) hquote hslash hne hkey hkeyOnly
  -- nor with the quote that closes it
  have hclose : ¬ mark <+: 0x22 :: (gap ++ quoted body s) := by
    intro h
    rw [heq, hhead] at h
    obtain ⟨rfl, -⟩ := List.cons_prefix_cons.mp (List.cons_prefix_cons.mp h).2
    obtain h | h := hb
    · rw [hblank] at h
      cases h
    · exact hcolon h
  -- nor at any quote of the string
  have hstring : ∀ u v, body = u ++ v → ¬ mark <+: 0x22 :: (v ++ 0x22 :: s) := by
    intro u v hsplit h
    rw [heq] at h
    rw [hsplit] at hbody
    exact hbehind (colon_behind_word hquote hslash hne hbody h)
  have hwithin : ∀ w, w <:+ body → w ≠ [] → ¬ mark <+: w ++ 0x22 :: s := by
    intro w hw hw' h
    obtain ⟨u, hu⟩ := hw
    cases w with
    | nil => exact hw' rfl
    | cons b w =>
      have hb : b = 0x22 := by
        rw [heq] at h
        exact (List.cons_prefix_cons.mp h).1.symm
      subst hb
      exact hstring (u ++ [0x22]) w (by rw [← hu, List.append_assoc]; rfl) h
  calc mark <:+: quoted key (gap ++ quoted body s)
      ↔ mark <:+: key ++ 0x22 :: (gap ++ quoted body s) := by
        rw [quoted, List.infix_cons_iff]
        exact or_iff_right hopen
    _ ↔ mark <:+: 0x22 :: (gap ++ quoted body s) := hm.infix_append_iff hkeyQuote
    _ ↔ mark <:+: gap ++ quoted body s := by
        rw [List.infix_cons_iff]
        exact or_iff_right hclose
    _ ↔ mark <:+: quoted body s := hm.infix_append_iff hgapQuote
    _ ↔ mark <:+: body ++ 0x22 :: s := by
        rw [quoted, List.infix_cons_iff]
        exact or_iff_right (hstring [] body rfl)
    _ ↔ mark <:+: 0x22 :: s := Bytes.infix_append_iff hwithin

end IsMark

/-- The texts begin with the same endings of a mark. -/
theorem Alike.agree (h : Alike s s') (hm : IsMark mark) : Agree mark s s' := by
  induction h with
  | same => exact fun _ _ => Iff.rfl
  | @byte b _ _ _ _ ih => exact ih.append [b]
  | @string body _ _ _ _ _ ih =>
    rw [quoted_eq, quoted_eq]
    exact ih.append _
  | payload hkey hname =>
    -- an ending that goes beyond the key would hold the key
    intro ending hending
    exact ⟨fun h => (hm.prefix_key hkey hname hending h).trans (prefix_quoted _ _),
      fun h => (hm.prefix_key hkey hname hending h).trans (prefix_quoted _ _)⟩

/-- **A mark occurs in both of two alike texts or in neither.** -/
theorem Alike.contains_eq (h : Alike s s') (hm : IsMark mark) :
    contains s mark = contains s' mark := by
  rw [Bool.eq_iff_iff, contains_iff, contains_iff]
  induction h with
  | same => rfl
  | @byte b _ _ _ h ih => exact (h.agree hm).infix_append ih [b]
  | string _ h ih =>
    rw [quoted_eq, quoted_eq]
    exact (h.agree hm).infix_append ih _
  | payload hkey hname hgap hbody hbody' _ hbehind h ih =>
    have hbehind' := hbehind
    rw [h.head?_eq] at hbehind'
    rw [hm.infix_payload_iff hkey hname hgap hbody hbehind,
      hm.infix_payload_iff hkey hname hgap hbody' hbehind']
    exact (h.agree hm).infix_append ih [0x22]

/-- The key of a payload string is in no part of a text, as far as can be seen by reading. -/
theorem noKey_of_infixes {mark : Bytes}
    (h : ∀ tail ∈ mark.tails, ∀ part ∈ tail.inits, ∀ name ∈ payloadKeys,
      (Json.readString part.tail).toOption ≠ some (name, [])) (key name : Bytes)
    (hkey : Json.Literal key name) (hname : name ∈ payloadKeys) : ¬ quoted key [] <:+: mark := by
  intro hmark
  obtain ⟨tail, hprefix, hsuffix⟩ := List.infix_iff_prefix_suffix.mp hmark
  refine h tail ((List.mem_tails _ _).mpr hsuffix) _ ((List.mem_inits _ _).mpr hprefix) name
    hname ?_
  rw [quoted, List.tail_cons, hkey.readString_eq []]
  rfl

theorem isMark_compact : IsMark "\"stop_reason\":\"tool_use\"" where
  begins :=
    ⟨Bytes.ascii 's', "top_reason", "\"tool_use\"", rfl, by decide, by decide, rfl, by decide⟩
  noKey := noKey_of_infixes (by decide +kernel)

theorem isMark_spaced : IsMark "\"stop_reason\": \"tool_use\"" where
  begins :=
    ⟨Bytes.ascii 's', "top_reason", " \"tool_use\"", rfl, by decide, by decide, rfl, by decide⟩
  noKey := noKey_of_infixes (by decide +kernel)

/-- **The mark of a tool-use stop** is in both of two alike lines or in neither. -/
theorem Alike.marksToolUseStop_eq {line line' : Bytes} (h : Alike line line') :
    Passthrough.marksToolUseStop line = Passthrough.marksToolUseStop line' := by
  rw [Passthrough.marksToolUseStop, h.contains_eq isMark_compact, h.contains_eq isMark_spaced]
  rfl

end Bytes

end ChatRelay
