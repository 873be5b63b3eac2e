import ChatRelay.Json.Printer
import ChatRelay.Proofs.Ascii
import ChatRelay.Proofs.Tables

/-!
# Values that can be written

A value can be written as JSON text when its strings are UTF-8 (`Json.isText`). Here that is carried
from the parts of a value to the whole and back.

* `itemsAreText_iff`, `fieldsAreText_iff` -- of an array and of an object, element by element;
* `isText_object`, `isText_objectWith` -- of an object that is built from fields;
* `isText_field?` and its companions -- of what is read out of a value;
* `valid_render` -- the text of such a value is UTF-8 again, so that it can stand in a string.
-/

namespace ChatRelay

/-! ## 1. Escapes -/

namespace Utf8

/-- Whether a state of the machine owes bytes outside ASCII only. -/
def State.proper : State → Bool
  | .bounded low _ _ => 0x80 ≤ low
  | _ => true

variable {q q' : State} {b : UInt8}

theorem proper_owing (n : Nat) : (owing n).proper = true := by
  cases n <;> rfl

theorem proper_first (h : first b = some q) : q.proper = true := by
  unfold first at h
  repeat' split at h
  all_goals cases h <;> rfl

theorem proper_step (hs : step q b = some q') : q'.proper = true := by
  cases q with
  | start => exact proper_first hs
  | owed n =>
    simp only [step, Option.ite_none_right_eq_some, Option.some.injEq] at hs
    exact hs.2 ▸ proper_owing n
  | bounded low high n =>
    simp only [step, Option.ite_none_right_eq_some, Option.some.injEq] at hs
    exact hs.2 ▸ proper_owing n

/-- An ASCII byte stands between two characters. -/
theorem start_of_step_ascii (hq : q.proper = true) (hb : b < 0x80) (hs : step q b = some q') :
    q = .start ∧ q' = .start := by
  cases q with
  | start =>
    have hle : b ≤ 0x7F := by
      rw [UInt8.lt_iff_toNat_lt] at hb
      exact UInt8.le_iff_toNat_le.mpr (Nat.le_of_lt_succ hb)
    rw [step, first, if_pos hle] at hs
    exact ⟨rfl, (Option.some.inj hs).symm⟩
  | owed n =>
    simp only [step, Option.ite_none_right_eq_some] at hs
    exact absurd hb (UInt8.not_lt.mpr hs.1.1)
  | bounded low high n =>
    simp only [step, Option.ite_none_right_eq_some] at hs
    exact absurd hb (UInt8.not_lt.mpr (UInt8.le_trans (of_decide_eq_true hq) hs.1.1))

theorem run_start_of_ascii {s : Bytes} (hs : s.Ascii) : run .start s = some .start := by
  have h := hs.valid
  rwa [valid, beq_iff_eq] at h

end Utf8

namespace Json

theorem escapeByte_of_not_ascii {b : UInt8} (hb : ¬ b < 0x80) : escapeByte b = [b] := by
  have hle : 0x80 ≤ b := UInt8.not_lt.mp hb
  rw [escapeByte, if_neg, if_neg, if_pos (UInt8.le_trans (by decide) hle)]
  · intro heq
    subst heq
    exact hb (by decide)
  · intro heq
    subst heq
    exact hb (by decide)

/-- A byte stands for itself, unless it is below the blank, or has an escape. -/
theorem escapeByte_cases (b : UInt8) :
    (escapeByte b = [b] ∧ 0x20 ≤ b) ∨ (escapeByte b).Printable := by
  unfold escapeByte
  split
  · exact .inr (by decide)
  · split
    · exact .inr (by decide)
    · split
      · rename_i hle
        exact .inl ⟨rfl, hle⟩
      · -- a byte below 0x20 has an escape of its own, or the general one
        refine .inr ?_
        repeat' split
        all_goals
          first
          | decide
          | exact Bytes.Printable.append (by decide) (Bytes.printable_hex 4 _)

theorem ascii_escapeByte {b : UInt8} (hb : b < 0x80) : (escapeByte b).Ascii := by
  obtain ⟨heq, -⟩ | hprintable := escapeByte_cases b
  · rw [heq]
    exact List.forall_mem_singleton.mpr hb
  · exact hprintable.ascii

/-- Escaping leaves a text UTF-8: only ASCII bytes are replaced, and by ASCII. -/
theorem run_flatMap_escapeByte {s : Bytes} {q q' : Utf8.State} (hq : q.proper = true)
    (hs : Utf8.run q s = some q') : Utf8.run q (s.flatMap escapeByte) = some q' := by
  induction s generalizing q with
  | nil => exact hs
  | cons b s ih =>
    obtain ⟨next, hstep, hrest⟩ := Option.bind_eq_some_iff.mp hs
    have hih := ih (Utf8.proper_step hstep) hrest
    rw [List.flatMap_cons, Utf8.run_append]
    by_cases hb : b < 0x80
    · obtain ⟨rfl, rfl⟩ := Utf8.start_of_step_ascii hq hb hstep
      rw [Utf8.run_start_of_ascii (ascii_escapeByte hb)]
      exact hih
    · rw [escapeByte_of_not_ascii hb, Utf8.run, hstep]
      exact hih

/-! ## 2. Arrays and objects -/

theorem itemsAreText_iff {items : List Json} :
    itemsAreText items = true ↔ ∀ j ∈ items, j.isText = true := by
  induction items with
  | nil => simp [itemsAreText]
  | cons j items ih => simp [itemsAreText, ih]

/-- A field whose key and value are text. -/
def FieldIsText (field : Bytes × Json) : Prop :=
  Utf8.valid field.1 = true ∧ field.2.isText = true

theorem fieldsAreText_iff {fields : List (Bytes × Json)} :
    fieldsAreText fields = true ↔ ∀ field ∈ fields, FieldIsText field := by
  induction fields with
  | nil => simp [fieldsAreText]
  | cons field fields ih =>
    obtain ⟨k, j⟩ := field
    simp only [fieldsAreText, Bool.and_eq_true, ih, List.forall_mem_cons, FieldIsText]

theorem isText_of_isNumber {j : Json} (h : j.isNumber = true) : j.isText = true := by
  cases j with
  | int => rfl
  | double => rfl
  | _ => cases h

/-- **An object of text fields is text.** -/
theorem isText_object {fields : List (Bytes × Json)} (h : ∀ field ∈ fields, FieldIsText field) :
    (object fields).isText = true := by
  rw [object, isText, fieldsAreText_iff]
  exact fun field hf => h field (Table.mem_of_mem_ofList hf)

theorem isText_objectWith {fields : List (Bytes × Json)} {further : List (Bytes × Option Json)}
    (h : ∀ field ∈ fields, FieldIsText field)
    (hfurther : ∀ field ∈ further, ∀ j ∈ field.2, FieldIsText (field.1, j)) :
    (objectWith fields further).isText = true := by
  refine isText_object fun field hf => ?_
  rcases List.mem_append.mp hf with hf | hf
  · exact h field hf
  · obtain ⟨e, he, hvalue⟩ := List.mem_filterMap.mp hf
    obtain ⟨j, hj, rfl⟩ := Option.map_eq_some_iff.mp hvalue
    exact hfurther e he j hj

/-! ## 3. Parts of a value -/

variable {j part : Json} {key : Bytes}

/-- A value that is read as an object is one. -/
theorem exists_obj_of_object? (h : j.object? = some part) :
    j = part ∧ ∃ fields, part = .obj fields := by
  cases j with
  | obj fields =>
    cases h
    exact ⟨rfl, fields, rfl⟩
  | _ => cases h

theorem stringField_eq (j : Json) (key : Bytes) :
    j.stringField key = ((j.field? key).bind string?).getD [] := by
  unfold stringField stringFieldD
  cases j.field? key with
  | none => rfl
  | some value => cases value <;> rfl

/-- A property that a value hands down to its parts. -/
structure Hereditary (p : Json → Prop) : Prop where
  items : ∀ {items}, p (.arr items) → ∀ item ∈ items, p item
  fields : ∀ {fields : List (Bytes × Json)}, p (.obj fields) → ∀ field ∈ fields, p field.2

namespace Hereditary

variable {p : Json → Prop} (hp : Hereditary p)

include hp

theorem field? (h : p j) (hf : j.field? key = some part) : p part := by
  cases j with
  | obj fields => exact hp.fields h _ (Table.mem_of_find? hf)
  | _ => cases hf

theorem fieldD {fallback : Json} (h : p j) (hb : p fallback) :
    p ((j.field? key).getD fallback) := by
  cases hf : j.field? key with
  | none => exact hb
  | some part => exact hp.field? h hf

theorem objectField? (h : p j) (hf : j.objectField? key = some part) : p part := by
  obtain ⟨field, hfield, ho⟩ := Option.bind_eq_some_iff.mp hf
  obtain ⟨rfl, -⟩ := exists_obj_of_object? ho
  exact hp.field? h hfield

theorem of_mem_arrayField? {items : List Json} (h : p j)
    (hf : j.arrayField? key = some items) : ∀ item ∈ items, p item := by
  obtain ⟨field, hfield, ha⟩ := Option.bind_eq_some_iff.mp hf
  have hpart := hp.field? h hfield
  cases field with
  | arr items' =>
    cases ha
    exact hp.items hpart
  | _ => cases ha

theorem headField? (h : p j) (hf : j.headField? key = some part) : p part := by
  unfold Json.headField? at hf
  split at hf
  · rename_i head rest harray
    obtain ⟨rfl, -⟩ := exists_obj_of_object? hf
    exact hp.of_mem_arrayField? h harray _ List.mem_cons_self
  · cases hf

end Hereditary

theorem hereditary_isText : Hereditary (·.isText = true) where
  items h := itemsAreText_iff.mp h
  fields h field hfield := (fieldsAreText_iff.mp h field hfield).2

theorem isText_field? (h : j.isText = true) (hf : j.field? key = some part) :
    part.isText = true :=
  hereditary_isText.field? h hf

theorem isText_fieldD {fallback : Json} (h : j.isText = true) (hb : fallback.isText = true) :
    ((j.field? key).getD fallback).isText = true :=
  hereditary_isText.fieldD h hb

theorem isText_objectField? (h : j.isText = true) (hf : j.objectField? key = some part) :
    part.isText = true :=
  hereditary_isText.objectField? h hf

theorem isText_of_mem_arrayField? {items : List Json} (h : j.isText = true)
    (hf : j.arrayField? key = some items) : ∀ item ∈ items, item.isText = true :=
  hereditary_isText.of_mem_arrayField? h hf

theorem isText_headField? (h : j.isText = true) (hf : j.headField? key = some part) :
    part.isText = true :=
  hereditary_isText.headField? h hf

theorem valid_stringField (h : j.isText = true) : Utf8.valid (j.stringField key) = true := by
  unfold stringField stringFieldD
  split
  · rename_i s hf
    exact isText_field? h hf
  · rfl

/-- A field is not among the further fields of an object when they have other keys. -/
theorem field?_objectWith {fields : List (Bytes × Json)} {further : List (Bytes × Option Json)}
    (h : (further.map (·.1)).contains key = false) :
    (objectWith fields further).field? key = (object fields).field? key := by
  show Table.find? (Table.ofList (fields ++ _)) key = Table.find? (Table.ofList fields) key
  rw [Table.ofList, List.foldl_append]
  refine Table.find?_foldl_insert fun e he => ?_
  obtain ⟨e', he', hvalue⟩ := List.mem_filterMap.mp he
  obtain ⟨j, -, rfl⟩ := Option.map_eq_some_iff.mp hvalue
  intro heq
  subst heq
  rw [List.contains_iff_mem.mpr (List.mem_map_of_mem he')] at h
  cases h

/-! ## 4. Writing -/

/-- What was written is text. -/
theorem of_dump {text : Bytes} (h : j.dump = .ok text) : j.isText = true ∧ text = j.render := by
  rw [dump] at h
  split at h
  · rename_i htext
    cases h
    exact ⟨htext, rfl⟩
  · cases h

theorem valid_quote {s : Bytes} (h : Utf8.valid s = true) : Utf8.valid (quote s) = true := by
  have hs : Utf8.run .start s = some .start := by rwa [Utf8.valid, beq_iff_eq] at h
  have hescaped : Utf8.valid (s.flatMap escapeByte) = true := by
    rw [Utf8.valid, run_flatMap_escapeByte rfl hs]
    rfl
  exact Utf8.valid_append (s := [0x22]) rfl (Utf8.valid_append hescaped rfl)

mutual

/-- **The text of a value of UTF-8 strings is UTF-8.** -/
theorem valid_render : ∀ {j : Json}, j.isText = true → Utf8.valid j.render = true
  | .null, _ => rfl
  | .bool true, _ => rfl
  | .bool false, _ => rfl
  | .int n, _ => (Bytes.printable_ofInt n).ascii.valid
  | .double x, _ => x.printable_render.ascii.valid
  | .str _, h => valid_quote h
  | .arr _, h => Utf8.valid_append (s := [0x5B]) rfl (valid_renderItems h)
  | .obj _, h => Utf8.valid_append (s := [0x7B]) rfl (valid_renderFields h)

theorem valid_renderItems : ∀ {items : List Json}, itemsAreText items = true →
    Utf8.valid (renderItems items) = true
  | [], _ => rfl
  | _ :: _, h =>
    have h := Bool.and_eq_true_iff.mp h
    Utf8.valid_append (valid_render h.1) (valid_renderMoreItems h.2)

theorem valid_renderMoreItems : ∀ {items : List Json}, itemsAreText items = true →
    Utf8.valid (renderMoreItems items) = true
  | [], _ => rfl
  | _ :: _, h =>
    have h := Bool.and_eq_true_iff.mp h
    Utf8.valid_append (s := [0x2C]) rfl
      (Utf8.valid_append (valid_render h.1) (valid_renderMoreItems h.2))

theorem valid_renderFields : ∀ {fields : List (Bytes × Json)}, fieldsAreText fields = true →
    Utf8.valid (renderFields fields) = true
  | [], _ => rfl
  | (_, _) :: _, h =>
    have h := Bool.and_eq_true_iff.mp h
    have hfield := Bool.and_eq_true_iff.mp h.1
    Utf8.valid_append (valid_quote hfield.1) (Utf8.valid_append (s := [0x3A]) rfl
      (Utf8.valid_append (valid_render hfield.2) (valid_renderMoreFields h.2)))

theorem valid_renderMoreFields : ∀ {fields : List (Bytes × Json)}, fieldsAreText fields = true →
    Utf8.valid (renderMoreFields fields) = true
  | [], _ => rfl
  | (_, _) :: _, h =>
    have h := Bool.and_eq_true_iff.mp h
    have hfield := Bool.and_eq_true_iff.mp h.1
    Utf8.valid_append (s := [0x2C]) rfl
      (Utf8.valid_append (valid_quote hfield.1) (Utf8.valid_append (s := [0x3A]) rfl
        (Utf8.valid_append (valid_render hfield.2) (valid_renderMoreFields h.2))))

end

end Json

end ChatRelay
