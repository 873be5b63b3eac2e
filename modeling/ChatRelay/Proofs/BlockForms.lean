import ChatRelay.Claude.Content
import ChatRelay.Proofs.Objects

/-!
# The form in which blocks are written

A block that is read and written again is passed on as it came, or it gets the form in which blocks
of its type are written.

* `ContentBlock.PassedOn` -- the blocks that are not taken apart;
* `ContentBlock.Canonical` -- the written form of each type: its fields, and no others;
* `ContentBlock.canonical_toClaude`, `normalized_of_canonical` -- what is written has this form, and
  what has it is written as it was;
* `normalized_idempotent` -- so once is enough for blocks and messages, and the blocks that stay as
  they were are these two.
-/

namespace ChatRelay

/-! ## 1. Fields -/

namespace Json

variable {j : Json} {fields : List (Bytes × Json)}

/-- **An object with these fields and no others.** -/
structure HasFields (j : Json) (fields : List (Bytes × Json)) : Prop where
  table : ∃ entries, j = .obj entries ∧ Table.Sorted entries
  field?_eq : ∀ key, j.field? key = Table.find? fields key

/-- An object has the fields that it is made of, when their keys differ. -/
theorem hasFields_object (h : decide (fields.map (·.1)).Nodup = true) :
    (object fields).HasFields fields where
  table := ⟨_, rfl, Table.sorted_ofList fields⟩
  field?_eq _ := Table.find?_ofList (of_decide_eq_true h)

/-- There is one such object. -/
theorem HasFields.eq_object (h : j.HasFields fields)
    (hnodup : decide (fields.map (·.1)).Nodup = true) : j = object fields := by
  obtain ⟨entries, rfl, hsorted⟩ := h.table
  refine eq_of_field?_eq hsorted (Table.sorted_ofList fields) fun key => ?_
  rw [h.field?_eq]
  exact ((hasFields_object hnodup).field?_eq key).symm

/-- A string that is not empty is read from a string. -/
theorem stringField_eq_iff {key s : Bytes} (hs : s ≠ []) :
    j.stringField key = s ↔ j.field? key = some (.str s) := by
  constructor
  · intro h
    unfold stringField stringFieldD at h
    split at h
    · rename_i found hfound
      rw [hfound, h]
    · exact absurd h.symm hs
  · intro h
    rw [stringField, stringFieldD, h]

theorem objectField?_eq_some_iff {key : Bytes} {value : Json} :
    j.objectField? key = some value ↔ j.field? key = some value ∧ value.isObject = true := by
  unfold objectField? object?
  constructor
  · intro h
    obtain ⟨found, hfound, h⟩ := Option.bind_eq_some_iff.mp h
    split at h
    · rename_i hobject
      cases h
      exact ⟨hfound, hobject⟩
    · cases h
  · rintro ⟨hfound, hobject⟩
    rw [hfound, Option.bind_some, if_pos hobject]

theorem isNull_of_ne (h : j ≠ .null) : j.isNull = false := by
  cases j with
  | null => exact absurd rfl h
  | _ => rfl

end Json

/-! ## 2. Blocks -/

namespace ContentBlock

variable {block : Json}

/-- The Claude value of a block that was read from one. -/
def normalized (block : Json) : Json :=
  (ofClaude block).toClaude

/-- The types of blocks that are taken apart. -/
def knownTypes : List Bytes :=
  ["text", "image", "tool_use", "tool_result", "thinking"]

/-- **A block that is passed on as it is**: no object, or of no known type, or an image whose data
    are elsewhere. -/
inductive PassedOn (block : Json) : Prop where
  | noObject (other : block.isObject = false)
  | noKnownType (unknown : ∀ type ∈ knownTypes, block.field? "type" ≠ some (.str type))
  | imageElsewhere (type : block.field? "type" = some (.str "image"))
      (elsewhere : ∀ source, block.field? "source" = some source → source.isObject = true →
        source.field? "type" ≠ some (.str "base64"))

/-- **A block in the form in which blocks are written.** -/
inductive Canonical (block : Json) : Prop where
  | text {text : Bytes} (fields : block.HasFields [("type", .str "text"), ("text", .str text)])
  | image {source : Json} {mediaType data : Bytes}
      (included : source.HasFields [("type", .str "base64"), ("media_type", .str mediaType),
        ("data", .str data)])
      (fields : block.HasFields [("type", .str "image"), ("source", source)])
  | toolUse {id name : Bytes} {input : Json} (given : input ≠ .null)
      (fields : block.HasFields [("type", .str "tool_use"), ("id", .str id), ("name", .str name),
        ("input", input)])
  | emptyResult {id : Bytes}
      (fields : block.HasFields [("type", .str "tool_result"), ("tool_use_id", .str id)])
  | toolResult {id : Bytes} {content : Json} (given : content ≠ .null)
      (fields : block.HasFields [("type", .str "tool_result"), ("tool_use_id", .str id),
        ("content", content)])
  | thought {thought : Json}
      (fields : block.HasFields [("type", .str "thinking"), ("thinking", thought)])
  | signedThought {thought : Json} {signature : Bytes}
      (fields : block.HasFields [("type", .str "thinking"), ("thinking", thought),
        ("signature", .str signature)])

/-! ### Reading -/

/-- The data of an image are elsewhere unless its source includes them. -/
theorem imageOf?_eq_none_iff : imageOf? block = none ↔
    ∀ source, block.field? "source" = some source → source.isObject = true →
      source.field? "type" ≠ some (.str "base64") := by
  rw [imageOf?, Option.bind_eq_none_iff]
  refine forall_congr' fun source => ?_
  rw [Json.objectField?_eq_some_iff, and_imp, Ne, ← Json.stringField_eq_iff (by decide)]
  refine forall_congr' fun _ => forall_congr' fun _ => ?_
  split
  · rename_i htype
    exact iff_of_false (Option.some_ne_none _) (not_not_intro htype)
  · rename_i htype
    exact iff_of_true rfl htype

theorem ofClaude_of_unknown (h : block.stringField "type" ∉ knownTypes) :
    ofClaude block = raw block := by
  have hne : ∀ type ∈ knownTypes, block.stringField "type" ≠ type :=
    fun type hmem heq => h (heq ▸ hmem)
  rw [ofClaude, if_neg (hne "text" (by decide)), if_neg (hne "image" (by decide)),
    if_neg (hne "tool_use" (by decide)), if_neg (hne "tool_result" (by decide)),
    if_neg (hne "thinking" (by decide))]

theorem ofClaude_of_image (h : block.stringField "type" = "image") :
    ofClaude block = (imageOf? block).getD (raw block) := by
  rw [ofClaude, h]
  rfl

theorem ofClaude_of_passedOn (h : PassedOn block) : ofClaude block = raw block := by
  cases h with
  | noObject other =>
    refine ofClaude_of_unknown ?_
    have hnone : block.field? "type" = none := by
      cases block with
      | obj fields => cases other
      | _ => rfl
    rw [Json.stringField, Json.stringFieldD, hnone]
    decide
  | noKnownType unknown =>
    refine ofClaude_of_unknown fun hmem => unknown _ hmem ?_
    have hall : ∀ type ∈ knownTypes, type ≠ [] := by decide
    exact (Json.stringField_eq_iff (hall _ hmem)).mp rfl
  | imageElsewhere type elsewhere =>
    rw [ofClaude_of_image ((Json.stringField_eq_iff (by decide)).mpr type),
      imageOf?_eq_none_iff.mpr elsewhere]
    rfl

/-- **A block is passed on, or it is taken apart**: one case for each type. -/
theorem passedOn_or_ne_raw (block : Json) : PassedOn block ∨ ∀ j, ofClaude block ≠ raw j := by
  by_cases hknown : block.stringField "type" ∈ knownTypes
  · simp only [knownTypes, List.mem_cons, List.not_mem_nil, or_false] at hknown
    rcases hknown with htype | htype | htype | htype | htype
    · refine .inr fun j hraw => ?_
      rw [ofClaude, htype] at hraw
      cases hraw
    · rw [ofClaude_of_image htype]
      cases hincluded : imageOf? block with
      | none =>
        exact .inl (.imageElsewhere ((Json.stringField_eq_iff (by decide)).mp htype)
          (imageOf?_eq_none_iff.mp hincluded))
      | some image =>
        refine .inr fun j hraw => ?_
        obtain ⟨source, -, hsource⟩ := Option.bind_eq_some_iff.mp hincluded
        rw [Option.getD_some] at hraw
        rw [hraw] at hsource
        split at hsource <;> cases hsource
    all_goals
      refine .inr fun j hraw => ?_
      rw [ofClaude, htype] at hraw
      cases hraw
  · refine .inl (.noKnownType fun type hmem hfield => hknown ?_)
    have hall : ∀ type ∈ knownTypes, type ≠ [] := by decide
    exact (Json.stringField_eq_iff (hall type hmem)).mpr hfield ▸ hmem

/-! ### Writing -/

/-- **What is written is in its form**, unless it is passed on. -/
theorem canonical_toClaude {b : ContentBlock} (h : ∀ j, b ≠ raw j) : Canonical b.toClaude := by
  cases b with
  | text text => exact .text (Json.hasFields_object rfl)
  | image mediaType data =>
    exact .image (Json.hasFields_object rfl) (Json.hasFields_object rfl)
  | toolUse id name input =>
    refine .toolUse ?_ (Json.hasFields_object rfl)
    unfold inputOrEmpty
    split
    · exact Json.noConfusion
    · rename_i hgiven
      exact fun hnull => hgiven (by rw [hnull]; rfl)
  | toolResult id content =>
    by_cases hnull : content = .null
    · rw [hnull]
      exact .emptyResult (Json.hasFields_object rfl)
    · rw [toClaude, Json.isNull_of_ne hnull]
      exact .toolResult hnull (Json.hasFields_object rfl)
  | thinking thought signature =>
    cases signature with
    | none => exact .thought (Json.hasFields_object rfl)
    | some signature => exact .signedThought (Json.hasFields_object rfl)
  | raw j => exact absurd rfl (h j)

/-- **A block in its form is written as it was.** -/
theorem normalized_of_canonical (h : Canonical block) : normalized block = block := by
  cases h with
  | text fields =>
    obtain rfl := fields.eq_object rfl
    rfl
  | image included fields =>
    obtain rfl := included.eq_object rfl
    obtain rfl := fields.eq_object rfl
    rfl
  | @toolUse id name input given fields =>
    obtain rfl := fields.eq_object rfl
    show (toolUse id name input).toClaude = _
    rw [toClaude, inputOrEmpty, Json.isNull_of_ne given]
    rfl
  | emptyResult fields =>
    obtain rfl := fields.eq_object rfl
    rfl
  | @toolResult id content given fields =>
    obtain rfl := fields.eq_object rfl
    show (toolResult id content).toClaude = _
    rw [toClaude, Json.isNull_of_ne given]
    rfl
  | thought fields =>
    obtain rfl := fields.eq_object rfl
    rfl
  | signedThought fields =>
    obtain rfl := fields.eq_object rfl
    rfl

theorem normalized_of_passedOn (h : PassedOn block) : normalized block = block := by
  rw [normalized, ofClaude_of_passedOn h, toClaude]

/-- **A block that is read and written is settled.** -/
theorem normalized_normalized (block : Json) :
    normalized (normalized block) = normalized block := by
  rcases passedOn_or_ne_raw block with hpassed | htaken
  · rw [normalized_of_passedOn hpassed, normalized_of_passedOn hpassed]
  · exact normalized_of_canonical (canonical_toClaude htaken)

/-- **The blocks that stay as they were.** -/
theorem normalized_eq_self_iff (block : Json) :
    normalized block = block ↔ PassedOn block ∨ Canonical block := by
  constructor
  · intro h
    refine (passedOn_or_ne_raw block).imp_right fun htaken => ?_
    rw [← h]
    exact canonical_toClaude htaken
  · rintro (hpassed | hcanonical)
    · exact normalized_of_passedOn hpassed
    · exact normalized_of_canonical hcanonical

end ContentBlock

/-! ## 3. Messages -/

namespace Message

open ContentBlock (normalized)

/-- The Claude value of a message that was read from one. -/
def normalized (message : Json) : Json :=
  (ofClaude message).toClaude

theorem ofText_name (role : Role) : Role.ofText role.name = role := by
  cases role <;> decide

/-- The blocks of a message that was read are settled when they are written. -/
theorem settled_of_mem {message : Json} {block : ContentBlock}
    (h : block ∈ (ofClaude message).content) :
    ContentBlock.normalized block.toClaude = block.toClaude := by
  unfold ofClaude at h
  dsimp only at h
  split at h
  · obtain rfl := List.mem_singleton.mp h
    rfl
  · obtain ⟨j, -, rfl⟩ := List.mem_map.mp h
    exact ContentBlock.normalized_normalized j
  · cases h

/-- A written message is read block by block. -/
theorem normalized_toClaude (m : Message) :
    normalized m.toClaude = .object [("role", .str m.role.name),
      ("content", .arr ((m.content.map ContentBlock.toClaude).map ContentBlock.normalized))] := by
  have hread : ofClaude m.toClaude = { role := Role.ofText m.role.name, content :=
      (m.content.map ContentBlock.toClaude).map ContentBlock.ofClaude } := rfl
  rw [normalized, hread, ofText_name, toClaude]
  dsimp only
  rw [List.map_map]
  rfl

/-- **Once is enough**: a block or a message that was read and written comes back as it is from then
    on; and the blocks that come back as they were the first time are those that are passed on and
    those in the form in which they are written. -/
theorem normalized_idempotent :
    (∀ block, ContentBlock.normalized (ContentBlock.normalized block) =
      ContentBlock.normalized block) ∧
    (∀ block, ContentBlock.normalized block = block ↔
      ContentBlock.PassedOn block ∨ ContentBlock.Canonical block) ∧
    ∀ message, normalized (normalized message) = normalized message := by
  refine ⟨ContentBlock.normalized_normalized, ContentBlock.normalized_eq_self_iff,
    fun message => ?_⟩
  show normalized (ofClaude message).toClaude = (ofClaude message).toClaude
  rw [normalized_toClaude, List.map_map]
  refine congrArg (fun blocks => Json.object [("role", .str (ofClaude message).role.name),
    ("content", .arr blocks)]) (List.map_congr_left fun block hblock => ?_)
  exact settled_of_mem hblock

end Message

end ChatRelay
