import ChatRelay.Proofs.SchemaPaths

/-!
# Declared parameters

The parameters of a tool are declared under `properties`, where any name can stand as a key.
Cleaning does not know that place from others: a name there that reads like a refused keyword goes
with its declaration, and the list of required names still has it.

* `Tools.Mistaken` -- the names that cleaning takes for keywords;
* `Tools.declared_kept_iff` -- a declaration stays exactly when its name is none of them, and the
  schema that it stands in is not itself behind a keyword.
-/

namespace ChatRelay.Tools

open Json (Step)

variable {target : SchemaTarget} {schema sub parameter : Json} {path : List Step} {name : Bytes}
  {i : Nat}

/-- The way from a schema to the declaration of a parameter. -/
def declaration (name : Bytes) : List Step :=
  [.key "properties", .key name]

/-- The way from a schema to one of the names that it requires. -/
def requirement (i : Nat) : List Step :=
  [.key "required", .index i]

/-- **A name that is taken for a keyword**: it reads like a refused one, or it is `format` beside a
    parameter `type` that is declared as the mere string `string`. -/
inductive Mistaken (target : SchemaTarget) (schema : Json) (name : Bytes) : Prop where
  | refused (denied : name ∈ target.denied)
  | format (name_eq : name = "format")
      (type : schema.valueAt? (declaration "type") = some (.str "string"))

/-! ## 1. Cut declarations -/

/-- The keywords that a schema declares and requires parameters under are never taken away. -/
theorem not_leftOut_of_mem {k : Bytes} (h : k ∈ [Bytes.ofString "properties", "required"]) :
    ¬ LeftOut target schema (.key k) := by
  rw [leftOut_key_iff]
  simp only [List.mem_cons, List.not_mem_nil, or_false] at h
  rintro (hdenied | ⟨-, hformat⟩)
  · revert hdenied
    rcases h with rfl | rfl <;> cases target <;> decide
  · revert hformat
    rcases h with rfl | rfl <;> decide

/-- A declaration is cut when its name is taken for a keyword. -/
theorem cut_declaration_iff (h : schema.valueAt? (declaration name) = some parameter) :
    Cut target schema (declaration name) ↔ Mistaken target schema name := by
  obtain ⟨properties, hproperties, -⟩ := Json.valueAt?_cons.mp h
  have htype : schema.valueAt? (declaration "type") = some (.str "string") ↔
      properties.field? "type" = some (.str "string") := by
    rw [declaration, Json.valueAt?_cons]
    simp only [hproperties, Option.some.injEq, exists_eq_left']
    simp [Json.child?]
  have hcut : Cut target schema (declaration name) ↔ LeftOut target properties (.key name) := by
    rw [declaration, cut_cons_iff, or_iff_right (not_leftOut_of_mem (by simp))]
    simp only [hproperties, Option.some.injEq, exists_eq_left', cut_cons_iff, not_cut_nil,
      and_false, exists_false, or_false]
  rw [hcut, leftOut_key_iff]
  constructor
  · rintro (hdenied | ⟨hstring, rfl⟩)
    · exact .refused hdenied
    · exact .format rfl (htype.mpr hstring)
  · rintro (hdenied | ⟨rfl, hstring⟩)
    · exact .inl hdenied
    · exact .inr ⟨htype.mp hstring, rfl⟩

theorem not_cut_requirement : ¬ Cut target schema (requirement i) := by
  rw [requirement, cut_cons_iff, or_iff_right (not_leftOut_of_mem (by simp))]
  simp only [cut_cons_iff, not_leftOut_index, not_cut_nil, and_false, exists_false, or_false,
    not_false_eq_true]

/-! ## 2. What stays declared -/

/-- **A declaration stays, cleaned, exactly when its name is not taken for a keyword** and no step
to the schema that it stands in is taken away; else nothing is left of it. A name that this schema
requires is still required as long as the schema is there. So of the schemas that are left, those
require a name without its declaration that declare and require one that is taken for a keyword. -/
theorem declared_kept_iff (hsub : schema.valueAt? path = some sub)
    (hname : sub.valueAt? (declaration name) = some parameter) :
    ((cleanSchema target schema).valueAt? (path ++ declaration name) =
        some (cleanSchema target parameter) ↔
      ¬ Cut target schema path ∧ ¬ Mistaken target sub name) ∧
    ((cleanSchema target schema).valueAt? (path ++ declaration name) = none ↔
      Cut target schema path ∨ Mistaken target sub name) ∧
    ∀ i, sub.valueAt? (requirement i) = some (.str name) →
      ((cleanSchema target schema).valueAt? (path ++ requirement i) = some (.str name) ↔
        ¬ Cut target schema path) := by
  have hplace : schema.valueAt? (path ++ declaration name) = some parameter := by
    rw [Json.valueAt?_append, hsub, Option.bind_some, hname]
  have hcut : Cut target schema (path ++ declaration name) ↔
      Cut target schema path ∨ Mistaken target sub name := by
    rw [cut_append_iff hsub, cut_declaration_iff hname]
  refine ⟨?_, ?_, fun i hrequired => ?_⟩
  · rw [valueAt?_cleanSchema, hcut, not_or]
    exact and_iff_left ⟨parameter, hplace, rfl⟩
  · rw [← hcut]
    refine ⟨fun hnone => Classical.byContradiction fun hkept => ?_, valueAt?_cleanSchema_of_cut⟩
    rw [valueAt?_cleanSchema.mpr ⟨hkept, parameter, hplace, rfl⟩] at hnone
    cases hnone
  · rw [valueAt?_cleanSchema, cut_append_iff hsub, or_iff_left not_cut_requirement]
    refine and_iff_left ⟨.str name, ?_, rfl⟩
    rw [Json.valueAt?_append, hsub, Option.bind_some, hrequired]

/-- A parameter of a parameter stays, and only its format goes. -/
theorem declared_kept_iff_nested :
    let place : Json := .object [("type", .str "object"), ("properties", .object [
      ("city", .object [("type", .str "string"), ("format", .str "city")])])]
    let schema : Json := .object [("type", .str "object"), ("title", .str "Weather"),
      ("properties", .object [("place", place)])]
    (cleanSchema .openai schema).valueAt? (declaration "place" ++ declaration "city") =
      some (.object [("type", .str "string")]) := by
  intro place schema
  have hplace : schema.valueAt? (declaration "place") = some place := by decide
  have hcity : place.valueAt? (declaration "city") =
      some (.object [("type", .str "string"), ("format", .str "city")]) := by decide
  refine (declared_kept_iff hplace hcity).1.mpr ⟨?_, ?_⟩
  · rw [cut_declaration_iff hplace]
    rintro (hdenied | ⟨hname, -⟩)
    · exact absurd hdenied (by decide)
    · exact absurd hname (by decide)
  · rintro (hdenied | ⟨hname, -⟩)
    · exact absurd hdenied (by decide)
    · exact absurd hname (by decide)

/-- A parameter that is called `title` is removed for both receivers, and still required. -/
theorem title_required_undeclared :
    let schema : Json := .object [("type", .str "object"),
      ("properties", .object [("title", .object [("type", .str "string")])]),
      ("required", .strings ["title"])]
    schema.valueAt? (declaration "title") = some (.object [("type", .str "string")]) ∧
      cleanSchema .openai schema = .object [("type", .str "object"), ("properties", .object []),
        ("required", .strings ["title"])] ∧
      cleanSchema .gemini schema = cleanSchema .openai schema := by
  decide

end ChatRelay.Tools
