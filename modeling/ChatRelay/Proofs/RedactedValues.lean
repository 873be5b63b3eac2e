import ChatRelay.Proofs.PayloadTexts
import ChatRelay.Proofs.Tables
import ChatRelay.Proofs.Transcript

/-!
# Values without their payload

What is left of a JSON value when its payload strings are covered, and that alike texts leave the
same.

* `Json.redact` -- covers the strings under the payload keys, however deep they are; whether such a
  string is empty can still be seen;
* `Json.Akin` -- values that are the same then; their fields are akin, and what is looked up under
  any other key is the same;
* `Json.Follows` -- the INVARIANT of the reader: what it reads of a text it reads of each alike
  text, up to payload;
* `Chunk.akin_ofLine` -- so the chunks of alike lines are akin.
-/

namespace ChatRelay

namespace Table

variable {κ ν : Type} [LT κ] [DecidableLT κ] [DecidableEq κ]

/-- The entries with their values changed, by key. -/
def mapValues (f : κ → ν → ν) (t : Table κ ν) : Table κ ν :=
  t.map fun e => (e.1, f e.1 e.2)

variable {f : κ → ν → ν}

omit [LT κ] [DecidableLT κ] in
theorem find?_mapValues (t : Table κ ν) (k : κ) :
    find? (mapValues f t) k = (find? t k).map (f k) := by
  induction t with
  | nil => rfl
  | cons e t ih =>
    obtain ⟨k', v⟩ := e
    show (if k' = k then some (f k' v) else find? (mapValues f t) k) =
      (if k' = k then some v else find? t k).map (f k)
    split
    · rename_i hk
      subst hk
      rfl
    · exact ih

theorem insert_mapValues (t : Table κ ν) (k : κ) (v : ν) :
    insert (mapValues f t) k (f k v) = mapValues f (insert t k v) := by
  induction t with
  | nil => rfl
  | cons e t ih =>
    obtain ⟨k', v'⟩ := e
    show insert ((k', f k' v') :: mapValues f t) k (f k v) =
      mapValues f (insert ((k', v') :: t) k v)
    rw [insert, insert]
    split
    · rfl
    · split
      · rfl
      · rw [ih]
        rfl

theorem ofList_mapValues (entries : List (κ × ν)) :
    ofList (mapValues f entries) = mapValues f (ofList entries) := by
  have hfoldl (t : Table κ ν) :
      (mapValues f entries).foldl (fun t e => insert t e.1 e.2) (mapValues f t) =
        mapValues f (entries.foldl (fun t e => insert t e.1 e.2) t) := by
    induction entries generalizing t with
    | nil => rfl
    | cons e entries ih =>
      show (mapValues f entries).foldl _ (insert (mapValues f t) e.1 (f e.1 e.2)) = _
      rw [insert_mapValues, ih]
      rfl
  exact hfoldl []

end Table

namespace Json

/-! ## 1. Redaction -/

/-- What is left of a payload string: whether there is something. -/
def cover (s : Bytes) : Bytes :=
  if s.isEmpty then [] else "*"

mutual

/-- The value with its payload strings covered; the flag says whether it stands under a payload
    key. -/
def redact : Bool → Json → Json
  | payload, .str s => .str (if payload then cover s else s)
  | _, .arr items => .arr (redactItems items)
  | _, .obj fields => .obj (redactFields fields)
  | _, .null => .null
  | _, .bool b => .bool b
  | _, .int n => .int n
  | _, .double x => .double x

/-- `redact` of elements; an element stands under no key. -/
def redactItems : List Json → List Json
  | [] => []
  | j :: rest => redact false j :: redactItems rest

/-- `redact` of fields. -/
def redactFields : List (Bytes × Json) → List (Bytes × Json)
  | [] => []
  | (key, j) :: rest => (key, redact (payloadKeys.contains key) j) :: redactFields rest

end

theorem redactItems_eq (items : List Json) : redactItems items = items.map (redact false) := by
  induction items with
  | nil => rfl
  | cons j items ih => rw [redactItems, ih, List.map_cons]

theorem redactFields_eq (fields : List (Bytes × Json)) :
    redactFields fields =
      Table.mapValues (fun key j => redact (payloadKeys.contains key) j) fields := by
  induction fields with
  | nil => rfl
  | cons e fields ih =>
    obtain ⟨key, j⟩ := e
    rw [redactFields, ih]
    rfl

/-- **Values that are the same but for payload.** -/
def Akin (j j' : Json) : Prop :=
  j.redact false = j'.redact false

variable {j j' : Json} {key : Bytes}

theorem isEmpty_cover (s : Bytes) : (cover s).isEmpty = s.isEmpty := by
  cases s <;> rfl

theorem cover_congr {s s' : Bytes} (h : s.isEmpty = s'.isEmpty) : cover s = cover s' := by
  rw [cover, cover, h]

namespace Akin

/-- Under a payload key they are the same too. -/
theorem redact_eq (h : Akin j j') (payload : Bool) : j.redact payload = j'.redact payload := by
  cases payload with
  | false => exact h
  | true =>
    unfold Akin at h
    cases j <;> cases j' <;> first | exact h | cases h
    rfl

theorem isObject_eq (h : Akin j j') : j.isObject = j'.isObject := by
  unfold Akin at h
  cases j <;> cases j' <;> first | rfl | cases h

theorem object (fields fields' : List (Bytes × Json))
    (h : redactFields fields = redactFields fields') : Akin (object fields) (object fields') := by
  show Json.obj (redactFields (Table.ofList fields)) =
    Json.obj (redactFields (Table.ofList fields'))
  rw [redactFields_eq, redactFields_eq, ← Table.ofList_mapValues, ← Table.ofList_mapValues,
    ← redactFields_eq, ← redactFields_eq, h]

end Akin

/-! ## 2. Fields -/

theorem field?_redact (j : Json) (payload : Bool) (key : Bytes) :
    (j.redact payload).field? key = (j.field? key).map (redact (payloadKeys.contains key)) := by
  cases j with
  | obj fields =>
    show Table.find? (redactFields fields) key = _
    rw [redactFields_eq, Table.find?_mapValues]
    rfl
  | _ => rfl

theorem string?_field?_redact (j : Json) (payload : Bool) (key : Bytes) :
    ((j.redact payload).field? key).bind string? =
      ((j.field? key).bind string?).map fun s =>
        if payloadKeys.contains key then cover s else s := by
  rw [field?_redact, Option.bind_map, Option.map_bind]
  congr 1
  funext part
  cases part <;> rfl

theorem objectField?_redact (j : Json) (payload : Bool) (key : Bytes) :
    (j.redact payload).objectField? key = (j.objectField? key).map (redact false) := by
  unfold objectField?
  rw [field?_redact, Option.bind_map, Option.map_bind]
  congr 1
  funext part
  cases part <;> rfl

theorem arrayField?_redact (j : Json) (payload : Bool) (key : Bytes) :
    (j.redact payload).arrayField? key =
      (j.arrayField? key).map fun items => items.map (redact false) := by
  unfold arrayField?
  rw [field?_redact, Option.bind_map, Option.map_bind]
  congr 1
  funext part
  cases part with
  | arr items => exact congrArg some (redactItems_eq items)
  | _ => rfl

theorem headField?_redact (j : Json) (payload : Bool) (key : Bytes) :
    (j.redact payload).headField? key = (j.headField? key).map (redact false) := by
  unfold headField?
  rw [arrayField?_redact]
  cases j.arrayField? key with
  | none => rfl
  | some items =>
    cases items with
    | nil => rfl
    | cons head rest => cases head <;> rfl

theorem intField?_redact (j : Json) (payload : Bool) (key : Bytes) :
    (j.redact payload).intField? key = j.intField? key := by
  unfold intField?
  rw [field?_redact, Option.bind_map]
  congr 1
  funext part
  cases part <;> rfl

theorem stringField_redact (j : Json) (payload : Bool) (key : Bytes) :
    (j.redact payload).stringField key =
      if payloadKeys.contains key then cover (j.stringField key) else j.stringField key := by
  rw [stringField_eq, stringField_eq, string?_field?_redact]
  cases (j.field? key).bind string? with
  | none => exact (ite_self []).symm
  | some s => rfl

/-- What is the same of two optional values is there in both or in neither. -/
theorem cases_of_map_eq {α β : Type} {f : α → β} {x x' : Option α} (h : x.map f = x'.map f) :
    (x = none ∧ x' = none) ∨ ∃ a a', x = some a ∧ x' = some a' ∧ f a = f a' := by
  cases x with
  | none => exact .inl ⟨rfl, Option.map_eq_none_iff.mp h.symm⟩
  | some a =>
    obtain ⟨a', hx', ha⟩ := Option.map_eq_some_iff.mp h.symm
    exact .inr ⟨a, a', rfl, hx', ha.symm⟩

namespace Akin

/-- The field under a key is there in both or in neither. -/
theorem field?_cases (h : Akin j j') (key : Bytes) :
    (j.field? key = none ∧ j'.field? key = none) ∨
      ∃ part part', j.field? key = some part ∧ j'.field? key = some part' ∧
        part.redact (payloadKeys.contains key) = part'.redact (payloadKeys.contains key) :=
  cases_of_map_eq (by rw [← field?_redact j false, h, field?_redact])

/-- The object under a key is there in both or in neither. -/
theorem objectField?_cases (h : Akin j j') (key : Bytes) :
    (j.objectField? key = none ∧ j'.objectField? key = none) ∨
      ∃ part part', j.objectField? key = some part ∧ j'.objectField? key = some part' ∧
        Akin part part' :=
  cases_of_map_eq (by rw [← objectField?_redact j false, h, objectField?_redact])

/-- A string under a key is there in both or in neither. -/
theorem string?_cases (h : Akin j j') (key : Bytes) :
    ((j.field? key).bind string? = none ∧ (j'.field? key).bind string? = none) ∨
      ∃ s s', (j.field? key).bind string? = some s ∧ (j'.field? key).bind string? = some s' ∧
        (if payloadKeys.contains key then cover s else s) =
          if payloadKeys.contains key then cover s' else s' :=
  cases_of_map_eq (by rw [← string?_field?_redact j false, h, string?_field?_redact])

/-- The array under a key is there in both or in neither. -/
theorem arrayField?_cases (h : Akin j j') (key : Bytes) :
    (j.arrayField? key = none ∧ j'.arrayField? key = none) ∨
      ∃ items items', j.arrayField? key = some items ∧ j'.arrayField? key = some items' ∧
        items.map (redact false) = items'.map (redact false) :=
  cases_of_map_eq (by rw [← arrayField?_redact j false, h, arrayField?_redact])

/-- The object at the head of an array is there in both or in neither. -/
theorem headField?_cases (h : Akin j j') (key : Bytes) :
    (j.headField? key = none ∧ j'.headField? key = none) ∨
      ∃ part part', j.headField? key = some part ∧ j'.headField? key = some part' ∧
        Akin part part' :=
  cases_of_map_eq (by rw [← headField?_redact j false, h, headField?_redact])

theorem fieldD (h : Akin j j') (key : Bytes) (hkey : payloadKeys.contains key = false) :
    Akin ((j.field? key).getD .null) ((j'.field? key).getD .null) := by
  obtain ⟨hj, hj'⟩ | ⟨part, part', hj, hj', hpart⟩ := h.field?_cases key
  · rw [hj, hj']
    rfl
  · rw [hkey] at hpart
    rw [hj, hj']
    exact hpart

theorem intField?_eq (h : Akin j j') (key : Bytes) : j.intField? key = j'.intField? key := by
  rw [← intField?_redact j false, h, intField?_redact]

/-- A string that is no payload is the same. -/
theorem stringField_eq (h : Akin j j') (key : Bytes) (hkey : payloadKeys.contains key = false) :
    j.stringField key = j'.stringField key := by
  have heq : (j.redact false).stringField key = (j'.redact false).stringField key := by rw [h]
  rwa [stringField_redact, stringField_redact, hkey, if_neg Bool.false_ne_true,
    if_neg Bool.false_ne_true] at heq

/-- Of any string it can be seen whether it is empty. -/
theorem isEmpty_stringField_eq (h : Akin j j') (key : Bytes) :
    (j.stringField key).isEmpty = (j'.stringField key).isEmpty := by
  have heq : (j.redact false).stringField key = (j'.redact false).stringField key := by rw [h]
  rw [stringField_redact, stringField_redact] at heq
  cases hkey : payloadKeys.contains key with
  | true =>
    rw [hkey, if_pos rfl, if_pos rfl] at heq
    rw [← isEmpty_cover, heq, isEmpty_cover]
  | false => rw [h.stringField_eq key hkey]

end Akin

/-! ## 3. Words and numbers -/

section

variable {s s' : Bytes} {α β : Type}

/-- What is read of a text is read of the other one too, and what is left is alike. -/
def Reads (x x' : Except ReadFault (α × Bytes)) : Prop :=
  ∀ a r, x = .ok (a, r) → ∃ r', x' = .ok (a, r') ∧ Bytes.Alike r r'

theorem reads_ok (a : α) (h : Bytes.Alike s s') : Reads (.ok (a, s)) (.ok (a, s')) := by
  intro _ _ heq
  cases heq
  exact ⟨s', rfl, h⟩

theorem reads_error {e : ReadFault} {x : Except ReadFault (α × Bytes)} : Reads (.error e) x :=
  nofun

theorem Reads.bind {x x' : Except ReadFault (α × Bytes)}
    {f f' : α × Bytes → Except ReadFault (β × Bytes)} (h : Reads x x')
    (hf : ∀ a r r', Bytes.Alike r r' → Reads (f (a, r)) (f' (a, r'))) :
    Reads (x >>= f) (x' >>= f') := by
  intro b r hread
  obtain ⟨⟨a, rest⟩, hx, hread⟩ := bind_eq_ok_iff.mp hread
  obtain ⟨rest', hx', hrest⟩ := h a rest hx
  obtain ⟨r', hread', hr⟩ := hf a rest rest' hrest b r hread
  exact ⟨r', bind_eq_ok_iff.mpr ⟨(a, rest'), hx', hread'⟩, hr⟩

end

end Json

namespace Bytes.Alike

open Json

variable {s s' : Bytes} (h : Alike s s')

include h

theorem expect_some {word r : Bytes} (hword : 0x22 ∉ word) (hr : expect word s = some r) :
    ∃ r', expect word s' = some r' ∧ Alike r r' := by
  rw [expect_eq_some_iff] at hr
  subst hr
  obtain ⟨r', rfl, hrest⟩ := h.of_append hword
  exact ⟨r', expect_eq_some_iff.mpr rfl, hrest⟩

theorem expect_none {word : Bytes} (hword : 0x22 ∉ word) (hs : expect word s = none) :
    expect word s' = none := by
  refine Option.eq_none_iff_forall_ne_some.mpr fun r' hs' => ?_
  obtain ⟨r, hr, -⟩ := h.symm.expect_some hword hs'
  cases hs.symm.trans hr

/-- A word without quotes begins both or neither. -/
theorem expect_cases (word : Bytes) (hword : 0x22 ∉ word) :
    (expect word s = none ∧ expect word s' = none) ∨
      ∃ r r', expect word s = some r ∧ expect word s' = some r' ∧ Alike r r' := by
  cases hs : expect word s with
  | some r =>
    obtain ⟨r', hs', hrest⟩ := h.expect_some hword hs
    exact .inr ⟨r, r', rfl, hs', hrest⟩
  | none => exact .inl ⟨rfl, h.expect_none hword hs⟩

theorem expect_getD {word : Bytes} (hword : 0x22 ∉ word) :
    Alike ((expect word s).getD s) ((expect word s').getD s') := by
  obtain ⟨hs, hs'⟩ | ⟨r, r', hs, hs', hrest⟩ := h.expect_cases word hword
  · rw [hs, hs']
    exact h
  · rw [hs, hs']
    exact hrest

theorem skipBlanks : Alike (skipBlanks s) (skipBlanks s') :=
  h.dropWhile rfl

theorem reads_digits : Reads (readDigits s) (readDigits s') := by
  intro digits r hread
  obtain ⟨hne, hdigits, rfl⟩ := readDigits_eq_ok_iff.mp hread
  refine ⟨_, readDigits_eq_ok_iff.mpr ⟨hne, ?_, rfl⟩, h.dropWhile rfl⟩
  rw [← h.takeWhile_eq rfl, hdigits]

theorem reads_whole : Reads (readWhole s) (readWhole s') := by
  refine h.reads_digits.bind fun digits r r' hrest => ?_
  dsimp only
  split
  · exact reads_error
  · exact reads_ok digits hrest

theorem reads_fraction : Reads (readFraction s) (readFraction s') := by
  unfold readFraction
  obtain ⟨hs, hs'⟩ | ⟨r, r', hs, hs', hrest⟩ := h.expect_cases [0x2E] (by decide)
  · rw [hs, hs']
    exact reads_ok none h
  · rw [hs, hs']
    exact hrest.reads_digits.bind fun digits _ _ hrest => reads_ok (some digits) hrest

theorem reads_exponent : Reads (readExponent s) (readExponent s') := by
  -- the letter is small or capital
  have hletter : ((expect "e" s).or (expect "E" s) = none ∧
        (expect "e" s').or (expect "E" s') = none) ∨
      ∃ r r', (expect "e" s).or (expect "E" s) = some r ∧
        (expect "e" s').or (expect "E" s') = some r' ∧ Alike r r' := by
    obtain ⟨hs, hs'⟩ | ⟨r, r', hs, hs', hrest⟩ := h.expect_cases "e" (by decide)
    · rw [hs, hs']
      exact h.expect_cases _ (by decide)
    · rw [hs, hs']
      exact .inr ⟨r, r', rfl, rfl, hrest⟩
  unfold readExponent
  obtain ⟨hs, hs'⟩ | ⟨r, r', hs, hs', hrest⟩ := hletter
  · rw [hs, hs']
    exact reads_ok none h
  · rw [hs, hs']
    dsimp only
    obtain ⟨hr, hr'⟩ | ⟨q, q', hr, hr', hq⟩ := hrest.expect_cases "-" (by decide)
    · rw [hr, hr']
      exact (hrest.expect_getD (by decide)).reads_digits.bind fun _ _ _ hrest => reads_ok _ hrest
    · rw [hr, hr']
      exact hq.reads_digits.bind fun _ _ _ hrest => reads_ok _ hrest

theorem reads_number : Reads (readNumber s) (readNumber s') := by
  have hsign : (expect "-" s).isSome = (expect "-" s').isSome := by
    obtain ⟨hs, hs'⟩ | ⟨r, r', hs, hs', -⟩ := h.expect_cases "-" (by decide)
    · rw [hs, hs']
    · rw [hs, hs']
      rfl
  unfold readNumber
  rw [hsign]
  refine (h.expect_getD (by decide)).reads_whole.bind fun whole _ _ hrest => ?_
  refine hrest.reads_fraction.bind fun fraction _ _ hrest => ?_
  refine hrest.reads_exponent.bind fun exponent r r' hrest => ?_
  intro j _ hread
  obtain ⟨j', hvalue, hread⟩ := bind_eq_ok_iff.mp hread
  cases hread
  exact ⟨r', bind_eq_ok_iff.mpr ⟨j, hvalue, rfl⟩, hrest⟩

theorem reads_word {j : Json} {r : Bytes} (hread : readWord s = some (j, r)) :
    ∃ r', readWord s' = some (j, r') ∧ Alike r r' := by
  have hword {word : Bytes} (hquote : 0x22 ∉ word) (hs : s = word ++ r) :
      ∃ r', s' = word ++ r' ∧ Alike r r' := by
    subst hs
    exact h.of_append hquote
  rcases readWord_eq_some_iff.mp hread with ⟨hj, hs⟩ | ⟨hj, hs⟩ | ⟨hj, hs⟩
  · obtain ⟨r', hs', hrest⟩ := hword (by decide) hs
    exact ⟨r', readWord_eq_some_iff.mpr (.inl ⟨hj, hs'⟩), hrest⟩
  · obtain ⟨r', hs', hrest⟩ := hword (by decide) hs
    exact ⟨r', readWord_eq_some_iff.mpr (.inr (.inl ⟨hj, hs'⟩)), hrest⟩
  · obtain ⟨r', hs', hrest⟩ := hword (by decide) hs
    exact ⟨r', readWord_eq_some_iff.mpr (.inr (.inr ⟨hj, hs'⟩)), hrest⟩

end Bytes.Alike

/-! ## 4. Values -/

theorem Bytes.IsColon.expect_eq {gap : Bytes} (h : IsColon gap) (body s : Bytes) :
    ∃ t, Json.expect [0x3A] (Json.skipBlanks (gap ++ quoted body s)) = some t ∧
      Json.skipBlanks t = quoted body s := by
  obtain ⟨before, after, rfl, hbefore, hafter⟩ := h
  refine ⟨after ++ quoted body s, ?_, ?_⟩
  · rw [List.append_assoc, Json.skipBlanks, List.dropWhile_append_of_pos hbefore]
    exact Json.expect_eq_some_iff.mpr rfl
  · rw [Json.skipBlanks, List.dropWhile_append_of_pos hafter]
    rfl

namespace Json

variable {s s' r r' body content : Bytes} {n : Nat}

theorem readValue_quoted (h : Literal body content) (n : Nat) (s : Bytes) :
    readValue (n + 1) (Bytes.quoted body s) = .ok (.str content, s) :=
  readValue_succ_iff.mpr (.inr (.inl ⟨_, content, rfl, h.readString_eq s, rfl⟩))

/-- What is left behind a value: alike texts, or a colon. A colon follows no value. -/
def Left (r r' : Bytes) : Prop :=
  Bytes.Alike r r' ∨ ∃ t, expect [0x3A] (skipBlanks r) = some t

/-- Where the text goes on well, what is left is alike. -/
theorem Left.alike (h : Left r r') {b : UInt8} (hb : b ≠ 0x3A) {t : Bytes}
    (hr : expect [b] (skipBlanks r) = some t) : Bytes.Alike r r' := by
  refine h.resolve_right fun ⟨u, hu⟩ => ?_
  rw [expect_eq_some_iff] at hr hu
  exact hb (List.cons.inj (hr.symm.trans hu)).1

/-- **A string at the same place** is the same, and a colon may follow that makes it a key. -/
theorem exists_of_readString {t : Bytes} (h : Bytes.Alike (0x22 :: t) s')
    (hread : readString t = .ok (content, r)) :
    ∃ t' r', s' = 0x22 :: t' ∧ readString t' = .ok (content, r') ∧
      (Bytes.Alike r r' ∨ content ∈ payloadKeys ∧ Bytes.Swapped r r') := by
  obtain ⟨t', rfl, rfl | ⟨body, content', q, q', hbody, rfl, rfl, hq⟩⟩ := h.cons_quote
  · exact ⟨t', r, rfl, hread, .inl (.same r)⟩
  · obtain ⟨rfl, rfl⟩ := Prod.mk.inj (Except.ok.inj ((hbody.readString_eq q).symm.trans hread))
    exact ⟨_, q', rfl, hbody.readString_eq q', hq⟩

/-- **The invariant of the reader**: what it reads of a text, with some fuel, it reads of each alike
    text, up to payload. -/
structure Follows (n : Nat) : Prop where
  value : ∀ {s s' j r}, Bytes.Alike s s' → readValue n s = .ok (j, r) →
    ∃ j' r', readValue n s' = .ok (j', r') ∧ Akin j j' ∧ Left r r'
  items : ∀ {s s' items r}, Bytes.Alike s s' → readItems n s = .ok (items, r) →
    ∃ items' r', readItems n s' = .ok (items', r') ∧ redactItems items = redactItems items' ∧
      Bytes.Alike r r'
  fields : ∀ {s s' fields r}, Bytes.Alike s s' → readFields n s = .ok (fields, r) →
    ∃ fields' r', readFields n s' = .ok (fields', r') ∧
      redactFields fields = redactFields fields' ∧ Bytes.Alike r r'

namespace Follows

variable (ih : Follows n)

include ih

theorem value_succ {j : Json} (h : Bytes.Alike s s') (hread : readValue (n + 1) s = .ok (j, r)) :
    ∃ j' r', readValue (n + 1) s' = .ok (j', r') ∧ Akin j j' ∧ Left r r' := by
  rcases readValue_succ_iff.mp hread with hword | ⟨t, content, rfl, hstring, rfl⟩ |
    ⟨t, rfl, harray⟩ | ⟨t, rfl, hobject⟩ | hdigits
  · obtain ⟨r', hword', hrest⟩ := h.reads_word hword
    exact ⟨j, r', readValue_succ_iff.mpr (.inl hword'), rfl, .inl hrest⟩
  · obtain ⟨t', r', rfl, hstring', hrest⟩ := exists_of_readString h hstring
    refine ⟨.str content, r',
      readValue_succ_iff.mpr (.inr (.inl ⟨t', content, rfl, hstring', rfl⟩)), rfl, ?_⟩
    refine hrest.imp_right fun ⟨_, gap, body, _, _, _, q, _, hgap, _, _, _, hr, _⟩ => ?_
    obtain ⟨t, hcolon, -⟩ := hgap.expect_eq body q
    exact ⟨t, hr ▸ hcolon⟩
  · obtain ⟨t', rfl, ht⟩ := h.cons_of_ne (by decide)
    rcases harray with ⟨hclose, rfl⟩ | ⟨hclose, items, hitems, rfl⟩
    · obtain ⟨r', hclose', hrest⟩ := ht.skipBlanks.expect_some (by decide) hclose
      exact ⟨.arr [], r',
        readValue_succ_iff.mpr (.inr (.inr (.inl ⟨t', rfl, .inl ⟨hclose', rfl⟩⟩))), rfl, .inl hrest⟩
    · obtain ⟨items', r', hitems', heq, hrest⟩ := ih.items ht.skipBlanks hitems
      have hclose' := ht.skipBlanks.expect_none (by decide) hclose
      exact ⟨.arr items', r',
        readValue_succ_iff.mpr
          (.inr (.inr (.inl ⟨t', rfl, .inr ⟨hclose', items', hitems', rfl⟩⟩))),
        congrArg Json.arr heq, .inl hrest⟩
  · obtain ⟨t', rfl, ht⟩ := h.cons_of_ne (by decide)
    rcases hobject with ⟨hclose, rfl⟩ | ⟨hclose, fields, hfields, rfl⟩
    · obtain ⟨r', hclose', hrest⟩ := ht.skipBlanks.expect_some (by decide) hclose
      exact ⟨.obj [], r',
        readValue_succ_iff.mpr (.inr (.inr (.inr (.inl ⟨t', rfl, .inl ⟨hclose', rfl⟩⟩)))), rfl,
        .inl hrest⟩
    · obtain ⟨fields', r', hfields', heq, hrest⟩ := ih.fields ht.skipBlanks hfields
      have hclose' := ht.skipBlanks.expect_none (by decide) hclose
      exact ⟨Json.object fields', r',
        readValue_succ_iff.mpr
          (.inr (.inr (.inr (.inl ⟨t', rfl, .inr ⟨hclose', fields', hfields', rfl⟩⟩)))),
        .object fields fields' heq, .inl hrest⟩
  · obtain ⟨r', hdigits', hrest⟩ := h.reads_number j r hdigits
    exact ⟨j, r', readValue_succ_iff.mpr (.inr (.inr (.inr (.inr hdigits')))), rfl, .inl hrest⟩

theorem items_succ {items : List Json} (h : Bytes.Alike s s')
    (hread : readItems (n + 1) s = .ok (items, r)) :
    ∃ items' r', readItems (n + 1) s' = .ok (items', r') ∧
      redactItems items = redactItems items' ∧ Bytes.Alike r r' := by
  obtain ⟨j, rest, hvalue, hmore⟩ := readItems_succ_iff.mp hread
  obtain ⟨j', rest', hvalue', hj, hleft⟩ := ih.value h hvalue
  rcases hmore with ⟨t, tail, hcomma, htail, rfl⟩ | ⟨hcomma, hclose, rfl⟩
  · have hrest := (hleft.alike (by decide) hcomma).skipBlanks
    obtain ⟨t', hcomma', ht⟩ := hrest.expect_some (by decide) hcomma
    obtain ⟨tail', r', htail', heq, hr⟩ := ih.items ht.skipBlanks htail
    refine ⟨j' :: tail', r', readItems_succ_iff.mpr
      ⟨j', rest', hvalue', .inl ⟨t', tail', hcomma', htail', rfl⟩⟩, ?_, hr⟩
    rw [redactItems, redactItems, heq, hj]
  · have hrest := (hleft.alike (by decide) hclose).skipBlanks
    obtain ⟨r', hclose', hr⟩ := hrest.expect_some (by decide) hclose
    refine ⟨[j'], r', readItems_succ_iff.mpr
      ⟨j', rest', hvalue', .inr ⟨hrest.expect_none (by decide) hcomma, hclose', rfl⟩⟩, ?_, hr⟩
    rw [redactItems, hj]
    rfl

/-- The value of a field: of a payload field it is a string of its own in each. -/
theorem field_value {key rest rest' t : Bytes} {j : Json}
    (h : Bytes.Alike rest rest' ∨ key ∈ payloadKeys ∧ Bytes.Swapped rest rest')
    (hcolon : expect [0x3A] (skipBlanks rest) = some t)
    (hvalue : readValue n (skipBlanks t) = .ok (j, r)) :
    ∃ t' j' r', expect [0x3A] (skipBlanks rest') = some t' ∧
      readValue n (skipBlanks t') = .ok (j', r') ∧
      j.redact (payloadKeys.contains key) = j'.redact (payloadKeys.contains key) ∧ Left r r' := by
  rcases h with h | ⟨hkey, gap, body, body', content, content', q, q', hgap, hbody, hbody',
    hlength, rfl, rfl, hq⟩
  · obtain ⟨t', hcolon', ht⟩ := h.skipBlanks.expect_some (by decide) hcolon
    obtain ⟨j', r', hvalue', hj, hleft⟩ := ih.value ht.skipBlanks hvalue
    exact ⟨t', j', r', hcolon', hvalue', hj.redact_eq _, hleft⟩
  · obtain ⟨u, hu, hblanks⟩ := hgap.expect_eq body q
    obtain ⟨u', hu', hblanks'⟩ := hgap.expect_eq body' q'
    obtain rfl := Option.some.inj (hu.symm.trans hcolon)
    rw [hblanks] at hvalue
    cases n with
    | zero => cases hvalue
    | succ n =>
      rw [readValue_quoted hbody] at hvalue
      cases hvalue
      refine ⟨u', .str content', q', hu', ?_, ?_, .inl hq⟩
      · rw [hblanks', readValue_quoted hbody']
      · -- both strings are empty or neither is, for they are of the same length
        have hempty : content.isEmpty = content'.isEmpty := by
          rw [hbody.isEmpty_eq, hbody'.isEmpty_eq, Bool.eq_iff_iff,
            List.isEmpty_iff_length_eq_zero, List.isEmpty_iff_length_eq_zero, hlength]
        rw [List.contains_iff_mem.mpr hkey, redact, redact, if_pos rfl, if_pos rfl,
          cover_congr hempty]

theorem fields_succ {fields : List (Bytes × Json)} (h : Bytes.Alike s s')
    (hread : readFields (n + 1) s = .ok (fields, r)) :
    ∃ fields' r', readFields (n + 1) s' = .ok (fields', r') ∧
      redactFields fields = redactFields fields' ∧ Bytes.Alike r r' := by
  obtain ⟨t, key, rest, hquote, hkey, t₂, j, rest₂, hcolon, hvalue, hmore⟩ :=
    readFields_succ_iff.mp hread
  rw [expect_eq_some_iff] at hquote
  subst hquote
  obtain ⟨t', rest', rfl, hkey', hrest⟩ := exists_of_readString h hkey
  obtain ⟨t₂', j', rest₂', hcolon', hvalue', hj, hleft⟩ := ih.field_value hrest hcolon hvalue
  rcases hmore with ⟨t₃, tail, hcomma, htail, rfl⟩ | ⟨hcomma, hclose, rfl⟩
  · have hrest₂ := (hleft.alike (by decide) hcomma).skipBlanks
    obtain ⟨t₃', hcomma', ht⟩ := hrest₂.expect_some (by decide) hcomma
    obtain ⟨tail', r', htail', heq, hr⟩ := ih.fields ht.skipBlanks htail
    refine ⟨(key, j') :: tail', r', readFields_succ_iff.mpr ⟨t', key, rest', rfl, hkey', t₂', j',
      rest₂', hcolon', hvalue', .inl ⟨t₃', tail', hcomma', htail', rfl⟩⟩, ?_, hr⟩
    rw [redactFields, redactFields, heq, hj]
  · have hrest₂ := (hleft.alike (by decide) hclose).skipBlanks
    obtain ⟨r', hclose', hr⟩ := hrest₂.expect_some (by decide) hclose
    refine ⟨[(key, j')], r', readFields_succ_iff.mpr ⟨t', key, rest', rfl, hkey', t₂', j', rest₂',
      hcolon', hvalue', .inr ⟨hrest₂.expect_none (by decide) hcomma, hclose', rfl⟩⟩, ?_, hr⟩
    rw [redactFields, hj]
    rfl

end Follows

/-- **Alike texts are read alike.** -/
theorem follows (n : Nat) : Follows n := by
  induction n with
  | zero =>
    constructor
    · intro s s' j r _ hread
      cases hread
    · intro s s' items r _ hread
      cases hread
    · intro s s' fields r _ hread
      cases hread
  | succ n ih => exact ⟨ih.value_succ, ih.items_succ, ih.fields_succ⟩

/-- A text has a value when each alike text has one, and the values are akin. -/
theorem exists_of_parse? {j : Json} (h : Bytes.Alike s s') (hread : parse? s = some j) :
    ∃ j', parse? s' = some j' ∧ Akin j j' := by
  have hmark : Bytes.Alike (withoutMark s) (withoutMark s') := h.expect_getD (by decide)
  obtain ⟨r, hvalue, hend⟩ := parse?_eq_some_iff.mp hread
  obtain ⟨j', r', hvalue', hj, hleft⟩ := (follows _).value hmark.skipBlanks hvalue
  refine ⟨j', parse?_eq_some_iff.mpr ⟨r', ?_, ?_⟩, hj⟩
  · rw [hmark.length_eq]
    exact hvalue'
  · obtain hrest | ⟨t, ht⟩ := hleft
    · rwa [isEnd, ← hrest.skipBlanks.head?_eq]
    · rw [expect_eq_some_iff] at ht
      rw [ht] at hend
      cases hend

theorem parse?_cases (h : Bytes.Alike s s') :
    (parse? s = none ∧ parse? s' = none) ∨
      ∃ j j', parse? s = some j ∧ parse? s' = some j' ∧ Akin j j' := by
  cases hs : parse? s with
  | some j =>
    obtain ⟨j', hs', hj⟩ := exists_of_parse? h hs
    exact .inr ⟨j, j', rfl, hs', hj⟩
  | none =>
    refine .inl ⟨rfl, Option.eq_none_iff_forall_ne_some.mpr fun j' hs' => ?_⟩
    obtain ⟨j, hj, -⟩ := exists_of_parse? h.symm hs'
    cases hs.symm.trans hj

end Json

/-! ## 5. Chunks -/

/-- **Chunks that are the same but for payload**, and are text as far as they were read. -/
inductive Chunk.Akin : Chunk → Chunk → Prop where
  | none : Akin .none .none
  | unreadable (size : Nat) : Akin (.unreadable size) (.unreadable size)
  | data {j j' : Json} (hj : j.isText = true) (hj' : j'.isText = true) (h : Json.Akin j j') :
      Akin (.data j) (.data j')
  | error {j j' : Json} (hj : j.isText = true) (hj' : j'.isText = true) :
      Akin (.error j) (.error j')

theorem Sse.payload?_eq (line : Bytes) :
    payload? line =
      (Json.expect "data:" line).map fun r => (Json.expect [0x20] r).getD r := by
  have hlength : (Bytes.ofString "data:").length = 5 := rfl
  rw [payload?, Bytes.startsWith, Json.expect, hlength]
  split
  · rw [Option.map_some]
    generalize line.drop 5 = rest
    split
    · rfl
    · rename_i hspace
      rw [Json.expect, if_neg]
      · rfl
      · intro hprefix
        obtain ⟨tail, rfl⟩ := List.isPrefixOf_iff_prefix.mp hprefix
        exact hspace tail rfl
  · rfl

/-- Data lines have alike payloads. -/
theorem Sse.payload?_cases {line line' : Bytes} (h : Bytes.Alike line line') :
    (payload? line = none ∧ payload? line' = none) ∨
      ∃ payload payload', payload? line = some payload ∧ payload? line' = some payload' ∧
        Bytes.Alike payload payload' := by
  rw [payload?_eq, payload?_eq]
  obtain ⟨hs, hs'⟩ | ⟨r, r', hs, hs', hrest⟩ := h.expect_cases "data:" (by decide)
  · rw [hs, hs']
    exact .inl ⟨rfl, rfl⟩
  · rw [hs, hs']
    exact .inr ⟨_, _, rfl, rfl, hrest.expect_getD (by decide)⟩

/-- **The chunks of alike lines** are akin. -/
theorem Chunk.akin_ofLine {line line' : Bytes} (h : Bytes.Alike line line') :
    Akin (ofLine line) (ofLine line') := by
  unfold ofLine
  obtain ⟨hnone, hnone'⟩ | ⟨payload, payload', hsome, hsome', hpayload⟩ :=
    Sse.payload?_cases h.trim
  · rw [hnone, hnone']
    exact .none
  rw [hsome, hsome']
  dsimp only
  by_cases hdone : payload = "[DONE]"
  · have hdone' : payload' = "[DONE]" := by
      subst hdone
      exact hpayload.eq_of_quote_notMem (by decide)
    rw [if_pos hdone, if_pos hdone']
    exact .none
  have hdone' : payload' ≠ "[DONE]" := by
    rintro rfl
    exact hdone (hpayload.symm.eq_of_quote_notMem (by decide))
  rw [if_neg hdone, if_neg hdone']
  obtain ⟨hnone, hnone'⟩ | ⟨j, j', hj, hj', hakin⟩ := Json.parse?_cases hpayload
  · rw [hnone, hnone', hpayload.length_eq]
    exact .unreadable _
  have htext := Json.isText_of_parse? hj
  have htext' := Json.isText_of_parse? hj'
  rw [hj, hj', Option.bind_some, Option.bind_some, Json.object?, Json.object?, hakin.isObject_eq]
  cases j'.isObject with
  | false =>
    rw [hpayload.length_eq]
    exact .unreadable _
  | true =>
    rw [if_pos rfl, if_pos rfl]
    dsimp only
    obtain ⟨hnone, hnone'⟩ | ⟨report, report', hr, hr', hreport⟩ := hakin.field?_cases "error"
    · rw [hnone, hnone']
      exact .data htext htext' hakin
    · have herror := Json.isText_field? htext hr
      have herror' := Json.isText_field? htext' hr'
      rw [hr, hr']
      -- an error that is null is none, and it is null in both or in neither
      cases report with
      | null =>
        cases report' with
        | null => exact .data htext htext' hakin
        | _ => cases hreport
      | _ =>
        cases report' with
        | null => cases hreport
        | _ => exact .error herror herror'

end ChatRelay
