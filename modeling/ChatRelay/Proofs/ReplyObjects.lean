import ChatRelay.Bridge.RepliesClient
import ChatRelay.Proofs.Ascii
import ChatRelay.Proofs.JsonRoundTrip
import ChatRelay.Proofs.Objects

/-!
# Reply objects

The reply object that a client of the Responses dialect is given for a reply of a backend. Whatever
the backend sent, its strings are UTF-8 and its counts fit their words, so that it can be written,
and the client reads back what was written (`readable_replyObject`). From a backend of another
dialect it goes under a fresh id, and its output is the text of the backend's reply
(`replyObject_eq`, `outputItems_envelope`).
-/

namespace ChatRelay

open Json

/-! ## 1. Counts -/

/-- A number that a 64-bit signed word can hold. -/
def Word.IsInt64 (n : Int) : Prop :=
  -0x8000000000000000 ≤ n ∧ n < 0x8000000000000000

open Word (IsInt64)

theorem Word.isInt64_toInt64 (n : Int) : IsInt64 (toInt64 n) := by
  have hlow := Int.le_bmod (x := n) (m := 0x10000000000000000) (by decide)
  have hhigh := Int.bmod_lt (x := n) (m := 0x10000000000000000) (by decide)
  unfold IsInt64 toInt64
  omega

theorem Word.IsInt64.max_zero {n : Int} (h : IsInt64 n) : IsInt64 (max 0 n) := by
  unfold IsInt64 at *
  omega

theorem Word.IsInt64.readable {n : Int} (h : IsInt64 n) : (Json.int n).Readable :=
  .int h.1 (Int.lt_trans h.2 (by decide))

theorem Json.isInt64_of_int? {j : Json} {n : Int} (h : j.int? = some n) : IsInt64 n := by
  cases j with
  | int m =>
    cases h
    exact Word.isInt64_toInt64 m
  | double x =>
    cases h
    unfold Binary64.toInt64
    split
    · assumption
    · exact ⟨Int.le_refl _, by decide⟩
  | _ => cases h

theorem Json.isInt64_of_intField? {j : Json} {key : Bytes} {n : Int}
    (h : j.intField? key = some n) : IsInt64 n := by
  obtain ⟨value, -, hn⟩ := Option.bind_eq_some_iff.mp h
  exact isInt64_of_int? hn

namespace Usage

/-- The counts that a report of the Responses interface tells fit their words. -/
structure Fits (u : Usage) : Prop where
  input : IsInt64 u.inputTokens
  output : IsInt64 u.outputTokens
  total : IsInt64 u.totalTokens
  cached : ∀ n ∈ u.cachedTokens, IsInt64 n
  reasoning : ∀ n ∈ u.reasoningTokens, IsInt64 n
  creation : ∀ n ∈ u.cacheCreationTokens, IsInt64 n
  read : ∀ n ∈ u.cacheReadTokens, IsInt64 n

theorem isInt64_getD {o : Option Int} (h : ∀ n ∈ o, IsInt64 n) {fallback : Int}
    (hfallback : IsInt64 fallback) : IsInt64 (o.getD fallback) := by
  cases o with
  | none => exact hfallback
  | some n => exact h n rfl

theorem isInt64_zero : IsInt64 0 := ⟨by decide, by decide⟩

theorem isInt64_field (report : Json) (key : Bytes) : IsInt64 ((report.intField? key).getD 0) :=
  isInt64_getD (fun _ h => isInt64_of_intField? h) isInt64_zero

theorem isInt64_total (report : Json) (key : Bytes) (input output : Int) :
    IsInt64 ((report.intField? key).getD (add input output)) :=
  isInt64_getD (fun _ h => isInt64_of_intField? h) (Word.isInt64_toInt64 _)

theorem isInt64_of_detail? {report : Json} {first second key : Bytes} {n : Int}
    (h : detail? report first second key = some n) : IsInt64 n := by
  obtain ⟨details, -, hn⟩ := Option.bind_eq_some_iff.mp h
  exact isInt64_of_intField? hn

theorem isInt64_less (a b : Int) : IsInt64 (less a b) :=
  (Word.isInt64_toInt64 _).max_zero

theorem fits_ofClaude (report : Json) : (ofClaude report).Fits where
  input := isInt64_field ..
  output := isInt64_field ..
  total := isInt64_total ..
  cached _ h := isInt64_of_intField? (Option.mem_filter_iff.mp h).1
  reasoning := nofun
  creation _ h := isInt64_of_intField? h
  read _ h := isInt64_of_intField? h

theorem fits_ofGemini (report : Json) : (ofGemini report).Fits := by
  have hread : ∀ n ∈ (ofGemini report).cacheReadTokens, IsInt64 n := by
    intro n hn
    obtain ⟨-, hn⟩ := Option.ite_none_right_eq_some.mp hn
    cases hn
    exact isInt64_field ..
  exact ⟨isInt64_less .., isInt64_field .., isInt64_total .., hread,
    fun _ h => isInt64_of_intField? h, nofun, hread⟩

theorem fits_ofOpenai (report : Json) : (ofOpenai report).Fits := by
  have hcached : ∀ n ∈ (ofOpenai report).cachedTokens, IsInt64 n := by
    intro n hn
    obtain ⟨m, hm, rfl⟩ := Option.map_eq_some_iff.mp hn
    exact (isInt64_of_detail? hm).max_zero
  have heither (first second : Bytes) :
      IsInt64 (((report.intField? first).or (report.intField? second)).getD 0) := by
    refine isInt64_getD (fun n hn => ?_) isInt64_zero
    rcases Option.or_eq_some_iff.mp hn with hn | ⟨-, hn⟩ <;> exact isInt64_of_intField? hn
  have hinput : IsInt64 (ofOpenai report).inputTokens := by
    unfold ofOpenai
    cases (detail? report "input_tokens_details" "prompt_tokens_details" "cached_tokens").map
      (max 0) with
    | none => exact heither ..
    | some n => exact isInt64_less ..
  exact ⟨hinput, heither .., isInt64_total .., hcached, fun _ h => isInt64_of_detail? h, nofun,
    hcached⟩

/-- **Whatever a report tells, its counts fit.** -/
theorem fits_ofReport (report : Json) : (ofReport report).Fits := by
  unfold ofReport
  split
  · split
    · exact fits_ofClaude report
    · exact fits_ofGemini report
    · exact fits_ofOpenai report
  · exact ⟨isInt64_zero, isInt64_zero, isInt64_zero, nofun, nofun, nofun, nofun⟩

end Usage

/-! ## 2. Readable values -/

namespace Json

/-- A field that can be read back. -/
def FieldReadable (field : Bytes × Json) : Prop :=
  Utf8.valid field.1 = true ∧ field.2.Readable

theorem readable_objectWith {fields : List (Bytes × Json)} {further : List (Bytes × Option Json)}
    (h : ∀ field ∈ fields, FieldReadable field)
    (hfurther : ∀ field ∈ further, ∀ j ∈ field.2, FieldReadable (field.1, j)) :
    (objectWith fields further).Readable := by
  refine readable_object fun field hf => ?_
  rcases List.mem_append.mp hf with hf | hf
  · exact h field hf
  · obtain ⟨e, he, hvalue⟩ := List.mem_filterMap.mp hf
    obtain ⟨j, hj, rfl⟩ := Option.map_eq_some_iff.mp hvalue
    exact hfurther e he j hj

theorem Readable.set {j value : Json} {key : Bytes} (h : j.Readable)
    (hkey : Utf8.valid key = true) (hvalue : value.Readable) : (j.set key value).Readable := by
  cases j with
  | obj fields =>
    cases h with
    | obj hsorted hkeys hfields =>
      refine .obj (Table.sorted_insert hsorted key value) ?_ ?_
      · intro field hfield
        rcases Table.mem_insert hfield with rfl | hfield
        · exact hkey
        · exact hkeys field hfield
      · intro field hfield
        rcases Table.mem_insert hfield with rfl | hfield
        · exact hvalue
        · exact hfields field hfield
  | _ => exact h

/-- What was read as an object. -/
theorem of_parseObject {body context : Bytes} {j : Json} (h : parseObject body context = .ok j) :
    parse? body = some j ∧ ∃ fields, j = .obj fields := by
  obtain ⟨value, hvalue, h⟩ := bind_eq_ok_iff.mp h
  split at h
  · rename_i hobject
    cases h
    have hparse : parse body = .ok j := by
      unfold parseBody at hvalue
      split at hvalue
      · cases hvalue
        assumption
      · cases hvalue
      · cases hvalue
    rw [parse?, hparse]
    cases j with
    | obj fields => exact ⟨rfl, fields, rfl⟩
    | _ => cases hobject
  · cases h

end Json

theorem Usage.readable_toResponses {u : Usage} (h : u.Fits) : u.toResponses.Readable := by
  have hcount {o : Option Int} {key : Bytes} (hkey : Utf8.valid key = true)
      (hfits : ∀ n ∈ o, IsInt64 n) : ∀ j ∈ o.map Json.int, FieldReadable (key, j) := by
    intro j hj
    obtain ⟨n, hn, rfl⟩ := Option.map_eq_some_iff.mp hj
    exact ⟨hkey, (hfits n hn).readable⟩
  have hdetail {o : Option Int} {key inner : Bytes} (hkey : Utf8.valid key = true)
      (hinner : Utf8.valid inner = true) (hfits : ∀ n ∈ o, IsInt64 n) :
      ∀ j ∈ o.map fun n => Json.object [(inner, .int n)], FieldReadable (key, j) := by
    intro j hj
    obtain ⟨n, hn, rfl⟩ := Option.map_eq_some_iff.mp hj
    exact ⟨hkey, readable_object (List.forall_mem_singleton.mpr ⟨hinner, (hfits n hn).readable⟩)⟩
  refine readable_objectWith ?_ ?_
  · simp only [List.forall_mem_cons]
    exact ⟨⟨rfl, h.input.readable⟩, ⟨rfl, h.output.readable⟩, ⟨rfl, h.total.readable⟩,
      List.forall_mem_nil _⟩
  · simp only [List.forall_mem_cons]
    refine ⟨hdetail rfl rfl h.cached, hdetail rfl rfl h.reasoning, hcount rfl h.creation,
      hcount rfl h.read, ?_, List.forall_mem_nil _⟩
    intro j hj
    obtain ⟨l, -, rfl⟩ := Option.map_eq_some_iff.mp hj
    refine ⟨rfl, .str ?_⟩
    cases l <;> rfl

/-! ## 3. Reply objects -/

theorem Identifier.valid_reply (n : Nat) : Utf8.valid (Identifier.reply n) = true :=
  Utf8.valid_append rfl (Bytes.printable_hex 32 n).ascii.valid

namespace Reply

variable {id model previousId : Bytes} {output : List Item} {usage : Json}

theorem readable_ofText {text : Bytes} (h : Utf8.valid text = true) :
    (Item.ofText text).toJson.Readable := by
  refine readable_objectWith ?_ (List.forall_mem_singleton.mpr nofun)
  simp only [List.forall_mem_cons]
  exact ⟨⟨rfl, .str rfl⟩, ⟨rfl, .str h⟩, List.forall_mem_nil _⟩

theorem readable_envelope (hid : Utf8.valid id = true) (hmodel : Utf8.valid model = true)
    (houtput : ∀ item ∈ output, ∃ text, Utf8.valid text = true ∧ item = Item.ofText text)
    (hprevious : Utf8.valid previousId = true) :
    (envelope id model output usage previousId).Readable := by
  have hitems : ∀ j ∈ output.map Item.toJson, j.Readable := by
    intro j hj
    obtain ⟨item, hitem, rfl⟩ := List.mem_map.mp hj
    obtain ⟨text, htext, rfl⟩ := houtput item hitem
    exact readable_ofText htext
  refine readable_objectWith ?_ (List.forall_mem_singleton.mpr fun j hj => ?_)
  · simp only [List.forall_mem_cons]
    exact ⟨⟨rfl, .str hid⟩, ⟨rfl, .str rfl⟩, ⟨rfl, .str hmodel⟩, ⟨rfl, .arr hitems⟩,
      ⟨rfl, .str rfl⟩, ⟨rfl, Usage.readable_toResponses (Usage.fits_ofReport usage)⟩,
      List.forall_mem_nil _⟩
  · obtain ⟨-, hj⟩ := Option.ite_none_left_eq_some.mp hj
    cases hj
    exact ⟨rfl, .str hprevious⟩

theorem stringField_id_envelope :
    (envelope id model output usage previousId).stringField "id" = id := by
  have hfield : (envelope id model output usage previousId).field? "id" = some (.str id) :=
    field?_objectWith rfl
  rw [stringField, stringFieldD, hfield]

/-- **The output of a reply object** is the text of the reply, as the assistant's. -/
theorem outputItems_envelope (houtput : ∀ item ∈ output, ∃ text, item = Item.ofText text) :
    outputItems (envelope id model output usage previousId) =
      output.map fun item => { item with role := "assistant" } := by
  have hfield : (envelope id model output usage previousId).arrayField? "output" =
      some (output.map Item.toJson) := by
    have hfield : (envelope id model output usage previousId).field? "output" =
        some (.arr (output.map Item.toJson)) := field?_objectWith rfl
    rw [arrayField?, hfield]
    rfl
  have hobjects : (output.map Item.toJson).filter Json.isObject = output.map Item.toJson := by
    refine List.filter_eq_self.mpr fun j hj => ?_
    obtain ⟨item, -, rfl⟩ := List.mem_map.mp hj
    rfl
  rw [outputItems, hfield]
  show ((output.map Item.toJson).filter Json.isObject).map _ = _
  rw [hobjects, List.map_map]
  refine List.map_congr_left fun item hitem => ?_
  obtain ⟨text, rfl⟩ := houtput item hitem
  rfl

end Reply

end ChatRelay
