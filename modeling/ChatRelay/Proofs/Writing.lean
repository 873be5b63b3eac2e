import ChatRelay.Proofs.Fallible
import ChatRelay.Proofs.JsonText
import ChatRelay.Stream.Event

/-!
# Events that can be written

An event is written unless it holds a string that is not UTF-8. What the library puts in itself --
types, indices, usage reports -- is text, so that only the strings that came from elsewhere count.

* `ClaudeEvent.exists_render`, `GeminiChunk.exists_render`, `ReplyEvent.exists_render` -- an event
  of text is written;
* `FailsOnText` -- and nothing else can go wrong.
-/

namespace ChatRelay

open Json

/-! ## 1. Usage reports -/

namespace Usage

/-- A count that may be missing is text. -/
theorem isText_count {key : Bytes} (hkey : Utf8.valid key = true) (n : Option Int) :
    ∀ j ∈ n.map Json.int, FieldIsText (key, j) := by
  intro j hj
  obtain ⟨n, -, rfl⟩ := Option.map_eq_some_iff.mp hj
  exact ⟨hkey, rfl⟩

theorem isText_toClaude (u : Usage) : u.toClaude.isText = true := by
  refine isText_objectWith ?_ ?_
  · simp only [List.forall_mem_cons]
    exact ⟨⟨rfl, rfl⟩, ⟨rfl, rfl⟩, List.forall_mem_nil _⟩
  · simp only [List.forall_mem_cons]
    refine ⟨isText_count rfl _, isText_count rfl _, isText_count rfl _, isText_count rfl _, ?_,
      List.forall_mem_nil _⟩
    intro j hj
    obtain ⟨l, -, rfl⟩ := Option.map_eq_some_iff.mp hj
    refine ⟨rfl, ?_⟩
    cases l <;> rfl

theorem isText_toGemini (u : Usage) : u.toGemini.isText = true := by
  refine isText_objectWith ?_ ?_
  · simp only [List.forall_mem_cons]
    exact ⟨⟨rfl, rfl⟩, ⟨rfl, rfl⟩, ⟨rfl, rfl⟩, List.forall_mem_nil _⟩
  · simp only [List.forall_mem_cons]
    refine ⟨?_, ?_, List.forall_mem_nil _⟩
    · intro j hj
      obtain ⟨-, hj⟩ := Option.ite_none_right_eq_some.mp hj
      cases hj
      exact ⟨rfl, rfl⟩
    · intro j hj
      obtain ⟨n, -, rfl⟩ := Option.map_eq_some_iff.mp hj
      exact ⟨rfl, rfl⟩

theorem isText_toResponses (u : Usage) : u.toResponses.isText = true := by
  refine isText_objectWith ?_ ?_
  · simp only [List.forall_mem_cons]
    exact ⟨⟨rfl, rfl⟩, ⟨rfl, rfl⟩, ⟨rfl, rfl⟩, List.forall_mem_nil _⟩
  · simp only [List.forall_mem_cons]
    refine ⟨?_, ?_, isText_count rfl _, isText_count rfl _, ?_, List.forall_mem_nil _⟩
    · intro j hj
      obtain ⟨n, -, rfl⟩ := Option.map_eq_some_iff.mp hj
      exact ⟨rfl, rfl⟩
    · intro j hj
      obtain ⟨n, -, rfl⟩ := Option.map_eq_some_iff.mp hj
      exact ⟨rfl, rfl⟩
    · intro j hj
      obtain ⟨l, -, rfl⟩ := Option.map_eq_some_iff.mp hj
      refine ⟨rfl, ?_⟩
      cases l <;> rfl

end Usage

/-! ## 2. Claude events -/

/-- Whether the strings of the opening are UTF-8. -/
def BlockOpening.isText : BlockOpening → Bool
  | toolUse id name => Utf8.valid id && Utf8.valid name
  | text | thinking => true

/-- Whether the strings of the delta are UTF-8. -/
def BlockDelta.isText : BlockDelta → Bool
  | text piece | thinking piece | signature piece => Utf8.valid piece
  | input value => value.isText

theorem BlockOpening.isText_toJson {block : BlockOpening} (h : block.isText = true) :
    block.toJson.isText = true := by
  cases block with
  | text => rfl
  | thinking => rfl
  | toolUse id name =>
    obtain ⟨hid, hname⟩ := Bool.and_eq_true_iff.mp h
    refine isText_object ?_
    simp only [List.forall_mem_cons]
    exact ⟨⟨rfl, rfl⟩, ⟨rfl, hid⟩, ⟨rfl, hname⟩, ⟨rfl, rfl⟩, List.forall_mem_nil _⟩

theorem BlockDelta.exists_toJson {delta : BlockDelta} (h : delta.isText = true) :
    ∃ j, delta.toJson = .ok j ∧ j.isText = true := by
  -- every delta is an object of its type and one more string
  have hpiece (type key piece : Bytes) (htype : Utf8.valid type = true)
      (hkey : Utf8.valid key = true) (hpiece : Utf8.valid piece = true) :
      (object [("type", .str type), (key, .str piece)]).isText = true := by
    refine isText_object ?_
    simp only [List.forall_mem_cons]
    exact ⟨⟨rfl, htype⟩, ⟨hkey, hpiece⟩, List.forall_mem_nil _⟩
  cases delta with
  | text piece => exact ⟨_, rfl, hpiece _ _ piece rfl rfl h⟩
  | thinking piece => exact ⟨_, rfl, hpiece _ _ piece rfl rfl h⟩
  | signature piece => exact ⟨_, rfl, hpiece _ _ piece rfl rfl h⟩
  | input value =>
    refine ⟨_, ?_, hpiece "input_json_delta" "partial_json" value.render rfl rfl (valid_render h)⟩
    rw [toJson, dump_of_isText h]
    rfl

namespace ClaudeEvent

/-- Whether the strings of the event are UTF-8. -/
def isText : ClaudeEvent → Bool
  | blockStart _ block => block.isText
  | blockDelta _ delta => delta.isText
  | blockStop _ => true
  | messageDelta stopReason _ => stopReason.all Utf8.valid

theorem exists_toJson {e : ClaudeEvent} (h : e.isText = true) :
    ∃ j, e.toJson = .ok j ∧ j.isText = true := by
  cases e with
  | blockStart index block =>
    refine ⟨_, rfl, isText_object ?_⟩
    simp only [List.forall_mem_cons]
    exact ⟨⟨rfl, rfl⟩, ⟨rfl, rfl⟩, ⟨rfl, BlockOpening.isText_toJson h⟩,
      List.forall_mem_nil _⟩
  | blockDelta index delta =>
    obtain ⟨j, hj, htext⟩ := BlockDelta.exists_toJson h
    refine ⟨_, by rw [toJson, hj]; rfl, isText_object ?_⟩
    simp only [List.forall_mem_cons]
    exact ⟨⟨rfl, rfl⟩, ⟨rfl, rfl⟩, ⟨rfl, htext⟩, List.forall_mem_nil _⟩
  | blockStop index => exact ⟨_, rfl, rfl⟩
  | messageDelta stopReason usage =>
    refine ⟨_, rfl, isText_objectWith ?_ ?_⟩
    · simp only [List.forall_mem_cons]
      refine ⟨⟨rfl, rfl⟩, ⟨rfl, ?_⟩, List.forall_mem_nil _⟩
      cases stopReason with
      | none => rfl
      | some reason =>
        refine isText_objectWith (List.forall_mem_nil _) ?_
        simp only [List.forall_mem_cons]
        refine ⟨?_, List.forall_mem_nil _⟩
        intro j hj
        cases hj
        exact ⟨rfl, h⟩
    · simp only [List.forall_mem_cons]
      refine ⟨?_, List.forall_mem_nil _⟩
      intro j hj
      obtain ⟨u, -, rfl⟩ := Option.map_eq_some_iff.mp hj
      exact ⟨rfl, u.isText_toClaude⟩

/-- **An event whose strings are UTF-8 is written.** -/
theorem exists_render {e : ClaudeEvent} (h : e.isText = true) : ∃ text, e.render = .ok text := by
  obtain ⟨j, hj, htext⟩ := exists_toJson h
  refine ⟨Sse.event e.name j.render, ?_⟩
  rw [render, hj]
  show Sse.formatEvent e.name j = _
  rw [Sse.formatEvent, dump_of_isText htext]
  rfl

end ClaudeEvent

/-! ## 3. Gemini chunks -/

namespace Gemini

variable {text name : Bytes} {args : Json}

theorem isText_textPart (h : Utf8.valid text = true) : (textPart text).isText = true :=
  isText_object (List.forall_mem_singleton.mpr ⟨rfl, h⟩)

theorem isText_thoughtPart {signature : Option Bytes} (h : Utf8.valid text = true)
    (hsignature : ∀ s ∈ signature, Utf8.valid s = true) :
    (thoughtPart (.str text) signature).isText = true := by
  refine isText_objectWith ?_ (List.forall_mem_singleton.mpr fun j hj => ?_)
  · simp only [List.forall_mem_cons]
    exact ⟨⟨rfl, h⟩, ⟨rfl, rfl⟩, List.forall_mem_nil _⟩
  · obtain ⟨s, hs, rfl⟩ := Option.map_eq_some_iff.mp hj
    exact ⟨rfl, hsignature s hs⟩

theorem isText_callPart (hname : Utf8.valid name = true) (hargs : args.isText = true) :
    (callPart name args).isText = true := by
  refine isText_object (List.forall_mem_singleton.mpr ⟨rfl, isText_object ?_⟩)
  simp only [List.forall_mem_cons]
  exact ⟨⟨rfl, hname⟩, ⟨rfl, hargs⟩, List.forall_mem_nil _⟩

end Gemini

namespace GeminiChunk

/-- Whether the strings of the chunk are UTF-8. -/
def isText : GeminiChunk → Bool
  | part p => p.isText
  | finish reason _ => Utf8.valid reason
  | usage _ => true

/-- A chunk has one candidate. -/
theorem isText_candidates {c : Json} (h : c.isText = true) :
    FieldIsText (Bytes.ofString "candidates", .arr [c]) :=
  ⟨rfl, itemsAreText_iff.mpr (List.forall_mem_singleton.mpr h)⟩

theorem isText_toJson {c : GeminiChunk} (h : c.isText = true) : c.toJson.isText = true := by
  cases c with
  | part p =>
    refine isText_object (List.forall_mem_singleton.mpr (isText_candidates (isText_object ?_)))
    simp only [List.forall_mem_cons]
    refine ⟨⟨rfl, isText_object ?_⟩, ⟨rfl, rfl⟩, List.forall_mem_nil _⟩
    simp only [List.forall_mem_cons]
    exact ⟨⟨rfl, itemsAreText_iff.mpr (List.forall_mem_singleton.mpr h)⟩, ⟨rfl, rfl⟩,
      List.forall_mem_nil _⟩
  | finish reason u =>
    refine isText_objectWith (List.forall_mem_singleton.mpr (isText_candidates (isText_object ?_)))
      (List.forall_mem_singleton.mpr ?_)
    · simp only [List.forall_mem_cons]
      exact ⟨⟨rfl, h⟩, ⟨rfl, rfl⟩, List.forall_mem_nil _⟩
    · intro j hj
      obtain ⟨u, -, rfl⟩ := Option.map_eq_some_iff.mp hj
      exact ⟨rfl, u.isText_toGemini⟩
  | usage u => exact isText_object (List.forall_mem_singleton.mpr ⟨rfl, u.isText_toGemini⟩)

/-- **A chunk whose strings are UTF-8 is written.** -/
theorem exists_render {c : GeminiChunk} (h : c.isText = true) : ∃ text, c.render = .ok text :=
  ⟨_, by rw [render, dump_of_isText (isText_toJson h)]; rfl⟩

end GeminiChunk

/-! ## 4. Events of the Responses dialect -/

namespace ReplyEvent

/-- Whether the strings of the event are UTF-8. -/
def isText : ReplyEvent → Bool
  | created id model => Utf8.valid id && Utf8.valid model
  | textDelta piece => Utf8.valid piece
  | textDone text => Utf8.valid text
  | completed id model text _ => Utf8.valid id && Utf8.valid model && Utf8.valid text

theorem isText_replyObject {id model status : Bytes} {output : List Json} {usage : Option Usage}
    (hid : Utf8.valid id = true) (hmodel : Utf8.valid model = true)
    (hstatus : Utf8.valid status = true) (houtput : ∀ j ∈ output, j.isText = true) :
    (replyObject id model status output usage).isText = true := by
  refine isText_objectWith ?_ (List.forall_mem_singleton.mpr fun j hj => ?_)
  · simp only [List.forall_mem_cons]
    exact ⟨⟨rfl, hid⟩, ⟨rfl, rfl⟩, ⟨rfl, hmodel⟩, ⟨rfl, hstatus⟩,
      ⟨rfl, itemsAreText_iff.mpr houtput⟩, List.forall_mem_nil _⟩
  · obtain ⟨u, -, rfl⟩ := Option.map_eq_some_iff.mp hj
    exact ⟨rfl, u.isText_toResponses⟩

theorem isText_toJson {e : ReplyEvent} (h : e.isText = true) : e.toJson.isText = true := by
  cases e with
  | created id model =>
    obtain ⟨hid, hmodel⟩ := Bool.and_eq_true_iff.mp h
    refine isText_object ?_
    simp only [List.forall_mem_cons]
    exact ⟨⟨rfl, rfl⟩, ⟨rfl, isText_replyObject hid hmodel rfl (List.forall_mem_nil _)⟩,
      List.forall_mem_nil _⟩
  | textDelta piece =>
    refine isText_object ?_
    simp only [List.forall_mem_cons]
    exact ⟨⟨rfl, rfl⟩, ⟨rfl, rfl⟩, ⟨rfl, rfl⟩, ⟨rfl, h⟩, List.forall_mem_nil _⟩
  | textDone text =>
    refine isText_object ?_
    simp only [List.forall_mem_cons]
    exact ⟨⟨rfl, rfl⟩, ⟨rfl, rfl⟩, ⟨rfl, rfl⟩, ⟨rfl, h⟩, List.forall_mem_nil _⟩
  | completed id model text usage =>
    obtain ⟨hnames, htext⟩ := Bool.and_eq_true_iff.mp h
    obtain ⟨hid, hmodel⟩ := Bool.and_eq_true_iff.mp hnames
    have hitem : (object [("type", .str "text"), ("content", .str text)]).isText = true := by
      refine isText_object ?_
      simp only [List.forall_mem_cons]
      exact ⟨⟨rfl, rfl⟩, ⟨rfl, htext⟩, List.forall_mem_nil _⟩
    refine isText_object ?_
    simp only [List.forall_mem_cons]
    exact ⟨⟨rfl, rfl⟩,
      ⟨rfl, isText_replyObject hid hmodel rfl (List.forall_mem_singleton.mpr hitem)⟩,
      List.forall_mem_nil _⟩

/-- **An event whose strings are UTF-8 is written.** -/
theorem exists_render {e : ReplyEvent} (h : e.isText = true) : ∃ text, e.render = .ok text :=
  ⟨_, by rw [render, Sse.formatEvent, dump_of_isText (isText_toJson h)]; rfl⟩

end ReplyEvent

/-! ## 5. Events that cannot be written -/

theorem Json.eq_wrongJsonType_of_dump {j : Json} {e : RelayError} (h : j.dump = .error e) :
    e = .wrongJsonType := by
  unfold dump at h
  split at h
  · cases h
  · cases h
    rfl

/-- A writer of events that fails on strings only. -/
def FailsOnText {ε : Type} (render : ε → Except RelayError Bytes) : Prop :=
  ∀ event e, render event = .error e → e = .wrongJsonType

theorem Sse.eq_wrongJsonType_of_formatEvent {name : Bytes} {value : Json} {e : RelayError}
    (h : formatEvent name value = .error e) : e = .wrongJsonType :=
  Json.eq_wrongJsonType_of_dump (map_eq_error_iff.mp h)

theorem ClaudeEvent.failsOnText : FailsOnText render := by
  intro event e h
  obtain h | ⟨j, -, h⟩ := bind_eq_error_iff.mp h
  · -- only the input of a tool call is written on the way
    cases event with
    | blockDelta index delta =>
      cases delta with
      | input value =>
        exact Json.eq_wrongJsonType_of_dump (map_eq_error_iff.mp (map_eq_error_iff.mp h))
      | _ => cases h
    | _ => cases h
  · exact Sse.eq_wrongJsonType_of_formatEvent h

theorem GeminiChunk.failsOnText : FailsOnText render :=
  fun _ _ h => Json.eq_wrongJsonType_of_dump (map_eq_error_iff.mp h)

theorem ReplyEvent.failsOnText : FailsOnText render :=
  fun _ _ h => Sse.eq_wrongJsonType_of_formatEvent h

end ChatRelay
