import ChatRelay.Tools
import ChatRelay.Proofs.Tables

/-!
# What cleaning leaves of a schema

A place in a JSON value is a path of keys and positions (`Json.valueAt?`). Cleaning takes away the
places behind a refused keyword, or behind the format of a string, and nothing else.

* `Tools.LeftOut` -- the steps that are taken away, and `Tools.Cut` the paths with such a step;
* `Tools.valueAt?_cleanSchema` -- at every other path stands what stood there, cleaned;
* `Tools.cleanSchema_cleanSchema` -- to clean for two receivers in turn is to clean for the one of
  them that refuses more;
* `Tools.cleanSchema_cuts_refused` -- the whole of it.
-/

namespace ChatRelay

namespace Json

/-! ## 1. Places in a value -/

/-- A step into a value. -/
inductive Step where
  | key (k : Bytes)
  | index (i : Nat)
  deriving DecidableEq

/-- The value behind a step. -/
def child? (j : Json) : Step → Option Json
  | .key k => j.field? k
  | .index i => j.array?.bind (·[i]?)

/-- The value at a path. -/
def valueAt? : Json → List Step → Option Json
  | j, [] => some j
  | j, step :: path => (j.child? step).bind (valueAt? · path)

variable {j value : Json} {step : Step} {path rest : List Step}

@[simp] theorem valueAt?_nil (j : Json) : j.valueAt? [] = some j := rfl

@[simp] theorem valueAt?_cons :
    j.valueAt? (step :: path) = some value ↔
      ∃ c, j.child? step = some c ∧ c.valueAt? path = some value :=
  Option.bind_eq_some_iff

/-- A path in two parts is walked one part after the other. -/
theorem valueAt?_append (j : Json) (path rest : List Step) :
    j.valueAt? (path ++ rest) = (j.valueAt? path).bind (·.valueAt? rest) := by
  induction path generalizing j with
  | nil => rfl
  | cons step path ih =>
    simp only [List.cons_append, valueAt?, Option.bind_assoc, ih]

end Json

namespace Tools

open Json (Step)

variable {target : SchemaTarget} {schema j : Json} {step : Step} {path rest : List Step}

/-! ## 2. What is taken away -/

/-- **A step that cleaning takes away**: to the value of a refused keyword, or to the format of an
    object whose type is `string`. -/
inductive LeftOut (target : SchemaTarget) (schema : Json) : Step → Prop where
  | refused {k : Bytes} (denied : k ∈ target.denied) : LeftOut target schema (.key k)
  | format (type : schema.field? "type" = some (.str "string")) :
      LeftOut target schema (.key "format")

/-- Whether a step of the path is taken away from the value that it leads out of. -/
def Cut (target : SchemaTarget) (schema : Json) (path : List Step) : Prop :=
  ∃ before step after j, path = before ++ step :: after ∧ schema.valueAt? before = some j ∧
    LeftOut target j step

theorem leftOut_key_iff {k : Bytes} :
    LeftOut target schema (.key k) ↔
      k ∈ target.denied ∨ (schema.field? "type" = some (.str "string") ∧ k = "format") := by
  constructor
  · rintro (hdenied | htype)
    · exact .inl hdenied
    · exact .inr ⟨htype, rfl⟩
  · rintro (hdenied | ⟨htype, rfl⟩)
    · exact .refused hdenied
    · exact .format htype

theorem isLeftOut_iff {fields : List (Bytes × Json)} {k : Bytes} :
    isLeftOut target (isStringTyped fields) k = true ↔ LeftOut target (.obj fields) (.key k) := by
  simp [isLeftOut, isStringTyped, leftOut_key_iff, Json.field?]

theorem not_leftOut_index (i : Nat) : ¬ LeftOut target schema (.index i) := nofun

theorem not_cut_nil : ¬ Cut target schema [] := by
  rintro ⟨before, step, after, j, hpath, -⟩
  simp at hpath

theorem cut_cons_iff :
    Cut target schema (step :: path) ↔
      LeftOut target schema step ∨ ∃ j, schema.child? step = some j ∧ Cut target j path := by
  constructor
  · rintro ⟨before, cut, after, j, hpath, hvalue, hout⟩
    cases before with
    | nil =>
      cases hpath
      cases hvalue
      exact .inl hout
    | cons first before =>
      cases hpath
      obtain ⟨c, hchild, hvalue⟩ := Json.valueAt?_cons.mp hvalue
      exact .inr ⟨c, hchild, before, cut, after, j, rfl, hvalue, hout⟩
  · rintro (hout | ⟨c, hchild, before, cut, after, j, rfl, hvalue, hout⟩)
    · exact ⟨[], step, path, schema, rfl, rfl, hout⟩
    · exact ⟨step :: before, cut, after, j, rfl, Json.valueAt?_cons.mpr ⟨c, hchild, hvalue⟩,
        hout⟩

/-- A path on from a place is cut before the place or behind it. -/
theorem cut_append_iff (h : schema.valueAt? path = some j) :
    Cut target schema (path ++ rest) ↔ Cut target schema path ∨ Cut target j rest := by
  induction path generalizing schema with
  | nil =>
    cases h
    exact (or_iff_right not_cut_nil).symm
  | cons step path ih =>
    obtain ⟨c, hchild, hvalue⟩ := Json.valueAt?_cons.mp h
    rw [List.cons_append, cut_cons_iff, cut_cons_iff]
    simp only [hchild, Option.some.injEq, exists_eq_left', ih hvalue, or_assoc]

/-! ## 3. What is left -/

theorem cleanItems_eq_map (target : SchemaTarget) (items : List Json) :
    cleanItems target items = items.map (cleanSchema target) := by
  induction items with
  | nil => rfl
  | cons j items ih => rw [cleanItems, ih, List.map_cons]

/-- The fields of a cleaned object. -/
theorem find?_cleanFields (target : SchemaTarget) (stringTyped : Bool)
    (fields : List (Bytes × Json)) (k : Bytes) :
    Table.find? (cleanFields target stringTyped fields) k =
      if isLeftOut target stringTyped k then none
      else (Table.find? fields k).map (cleanSchema target) := by
  induction fields with
  | nil => simp [cleanFields, Table.find?]
  | cons head fields ih =>
    obtain ⟨k', value⟩ := head
    by_cases hk : k' = k
    · subst hk
      cases hout : isLeftOut target stringTyped k' with
      | true => simp [cleanFields, hout, ih]
      | false => simp [cleanFields, hout, Table.find?]
    · cases hout : isLeftOut target stringTyped k' with
      | true => simp [cleanFields, hout, ih, Table.find?, hk]
      | false => simp [cleanFields, hout, ih, Table.find?, hk]

/-- **A step that is not taken away leads to what it led to, cleaned**, and no other step leads
    anywhere. -/
theorem child?_cleanSchema {c : Json} :
    (cleanSchema target schema).child? step = some c ↔
      ¬ LeftOut target schema step ∧
        ∃ j, schema.child? step = some j ∧ cleanSchema target j = c := by
  cases step with
  | index i =>
    rw [and_iff_right (not_leftOut_index i)]
    cases schema with
    | arr items =>
      simp [cleanSchema, Json.child?, Json.array?, cleanItems_eq_map]
    | _ => simp [cleanSchema, Json.child?, Json.array?]
  | key k =>
    cases schema with
    | obj fields =>
      rw [cleanSchema, ← isLeftOut_iff]
      simp [Json.child?, Json.field?, find?_cleanFields]
    | _ => simp [cleanSchema, Json.child?, Json.field?]

/-- **At every path that is not cut stands what stood there, cleaned**, and at no other anything. -/
theorem valueAt?_cleanSchema {c : Json} :
    (cleanSchema target schema).valueAt? path = some c ↔
      ¬ Cut target schema path ∧
        ∃ j, schema.valueAt? path = some j ∧ cleanSchema target j = c := by
  induction path generalizing schema with
  | nil => simp [not_cut_nil]
  | cons step path ih =>
    simp only [Json.valueAt?_cons, child?_cleanSchema, cut_cons_iff, not_or]
    constructor
    · rintro ⟨_, ⟨hkept, j, hchild, rfl⟩, hvalue⟩
      obtain ⟨hpath, value, hvalue, hclean⟩ := ih.mp hvalue
      refine ⟨⟨hkept, ?_⟩, value, ⟨j, hchild, hvalue⟩, hclean⟩
      rintro ⟨j', hchild', hcut⟩
      cases hchild.symm.trans hchild'
      exact hpath hcut
    · rintro ⟨⟨hkept, hpath⟩, value, ⟨j, hchild, hvalue⟩, hclean⟩
      exact ⟨_, ⟨hkept, j, hchild, rfl⟩,
        ih.mpr ⟨fun hcut => hpath ⟨j, hchild, hcut⟩, value, hvalue, hclean⟩⟩

theorem valueAt?_cleanSchema_of_cut (h : Cut target schema path) :
    (cleanSchema target schema).valueAt? path = none :=
  Option.eq_none_iff_forall_ne_some.mpr fun _ hc => (valueAt?_cleanSchema.mp hc).1 h

/-- **The form that cleaning keeps**: a scalar is the same, an array is as long as it was, and an
    object stays one. -/
inductive SameForm : Json → Json → Prop where
  | scalar {j : Json} (noArray : j.array? = none) (noObject : j.isObject = false) : SameForm j j
  | array {items cleaned : List Json} (length_eq : cleaned.length = items.length) :
      SameForm (.arr items) (.arr cleaned)
  | object {fields cleaned : List (Bytes × Json)} : SameForm (.obj fields) (.obj cleaned)

theorem sameForm_cleanSchema (target : SchemaTarget) (j : Json) :
    SameForm j (cleanSchema target j) := by
  cases j with
  | arr items =>
    refine .array ?_
    rw [cleanItems_eq_map, List.length_map]
  | obj fields => exact .object
  | _ => exact .scalar rfl rfl

/-! ## 4. Cleaning twice -/

/-- The one of two receivers that refuses more. -/
def SchemaTarget.stricter : SchemaTarget → SchemaTarget → SchemaTarget
  | .openai, other => other
  | .gemini, _ => .gemini

theorem mem_denied_stricter (outer inner : SchemaTarget) (k : Bytes) :
    k ∈ (outer.stricter inner).denied ↔ k ∈ outer.denied ∨ k ∈ inner.denied := by
  have hsubset : SchemaTarget.openai.denied ⊆ SchemaTarget.gemini.denied := by decide
  cases outer with
  | openai =>
    cases inner with
    | openai => exact or_self_iff.symm
    | gemini => exact (or_iff_right_of_imp fun h => hsubset h).symm
  | gemini =>
    cases inner with
    | openai => exact (or_iff_left_of_imp fun h => hsubset h).symm
    | gemini => exact or_self_iff.symm

theorem isLeftOut_stricter (outer inner : SchemaTarget) (stringTyped : Bool) (k : Bytes) :
    isLeftOut (outer.stricter inner) stringTyped k =
      (isLeftOut outer stringTyped k || isLeftOut inner stringTyped k) := by
  rw [Bool.eq_iff_iff]
  simp only [isLeftOut, Bool.or_eq_true, List.contains_iff_mem, mem_denied_stricter]
  exact or_or_distrib_right

theorem cleanSchema_eq_str_iff {s : Bytes} : cleanSchema target j = .str s ↔ j = .str s := by
  cases j <;> simp [cleanSchema]

/-- The type of an object is still there when its format is looked at again. -/
theorem isStringTyped_cleanFields (target : SchemaTarget) (stringTyped : Bool)
    (fields : List (Bytes × Json)) :
    isStringTyped (cleanFields target stringTyped fields) = isStringTyped fields := by
  have hkept : isLeftOut target stringTyped "type" = false := by
    cases target <;> cases stringTyped <;> decide
  rw [Bool.eq_iff_iff]
  simp [isStringTyped, find?_cleanFields, hkept, cleanSchema_eq_str_iff]

mutual

/-- **To clean for two receivers in turn is to clean for the stricter one.** -/
theorem cleanSchema_cleanSchema (outer inner : SchemaTarget) : ∀ j : Json,
    cleanSchema outer (cleanSchema inner j) = cleanSchema (outer.stricter inner) j
  | .arr items => congrArg Json.arr (cleanItems_cleanItems outer inner items)
  | .obj fields => by
    rw [cleanSchema, cleanSchema, cleanSchema, isStringTyped_cleanFields,
      cleanFields_cleanFields outer inner _ fields]
  | .null | .bool _ | .int _ | .double _ | .str _ => rfl

theorem cleanItems_cleanItems (outer inner : SchemaTarget) : ∀ items : List Json,
    cleanItems outer (cleanItems inner items) = cleanItems (outer.stricter inner) items
  | [] => rfl
  | j :: items => by
    rw [cleanItems, cleanItems, cleanItems, cleanSchema_cleanSchema outer inner j,
      cleanItems_cleanItems outer inner items]

theorem cleanFields_cleanFields (outer inner : SchemaTarget) (stringTyped : Bool) :
    ∀ fields : List (Bytes × Json),
      cleanFields outer stringTyped (cleanFields inner stringTyped fields) =
        cleanFields (outer.stricter inner) stringTyped fields
  | [] => rfl
  | (k, j) :: fields => by
    have hfields := cleanFields_cleanFields outer inner stringTyped fields
    have hout := isLeftOut_stricter outer inner stringTyped k
    cases hinner : isLeftOut inner stringTyped k with
    | true => simp [cleanFields, hinner, hout, hfields]
    | false =>
      cases houter : isLeftOut outer stringTyped k with
      | true => simp [cleanFields, hinner, houter, hout, hfields]
      | false =>
        simp [cleanFields, hinner, houter, hout, hfields, cleanSchema_cleanSchema outer inner j]

end

/-! ## 5. The whole of it -/

/-- **Cleaning takes away what is refused, and no more.** A path leads somewhere in the cleaned
schema exactly when it did in the schema and no step of it goes to the value of a refused keyword,
or to the format of an object whose type is `string`. What is found there is the scalar that was
there, or an array as long as before, or an object. So a second cleaning changes nothing, and
cleaning for both receivers, in either order, is cleaning for the one that refuses more. -/
theorem cleanSchema_cuts_refused (schema : Json) :
    (∀ target path,
      (((cleanSchema target schema).valueAt? path).isSome ↔
        (schema.valueAt? path).isSome ∧
          ¬ ∃ before step after j, path = before ++ step :: after ∧
            schema.valueAt? before = some j ∧ LeftOut target j step) ∧
      ∀ c, (cleanSchema target schema).valueAt? path = some c →
        ∃ j, schema.valueAt? path = some j ∧ SameForm j c) ∧
    (∀ target, cleanSchema target (cleanSchema target schema) = cleanSchema target schema) ∧
    cleanSchema .openai (cleanSchema .gemini schema) = cleanSchema .gemini schema ∧
    cleanSchema .gemini (cleanSchema .openai schema) = cleanSchema .gemini schema := by
  refine ⟨fun target path => ⟨?_, fun c hc => ?_⟩, fun target => ?_,
    cleanSchema_cleanSchema .openai .gemini schema, cleanSchema_cleanSchema .gemini .openai schema⟩
  · simp only [Option.isSome_iff_exists, valueAt?_cleanSchema, Cut]
    constructor
    · rintro ⟨_, hpath, j, hvalue, -⟩
      exact ⟨⟨j, hvalue⟩, hpath⟩
    · rintro ⟨⟨j, hvalue⟩, hpath⟩
      exact ⟨_, hpath, j, hvalue, rfl⟩
  · obtain ⟨-, j, hvalue, rfl⟩ := valueAt?_cleanSchema.mp hc
    exact ⟨j, hvalue, sameForm_cleanSchema target j⟩
  · rw [cleanSchema_cleanSchema]
    cases target <;> rfl

/-- The format of a string goes, and that of an integer stays. -/
example :
    cleanSchema .openai (.arr [.object [("type", .str "string"), ("format", .str "uri")],
        .object [("type", .str "integer"), ("format", .str "int64")]]) =
      .arr [.object [("type", .str "string")],
        .object [("type", .str "integer"), ("format", .str "int64")]] := by
  decide

end Tools

end ChatRelay
