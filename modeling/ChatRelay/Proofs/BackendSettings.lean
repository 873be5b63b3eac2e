import ChatRelay.Backend
import ChatRelay.Proofs.Fallible
import ChatRelay.Proofs.Objects

/-!
# Settings of a backend, written and read

The configuration object of a backend leaves out what is empty and names the dialect in one
spelling; what is read back is the same backend all the same.

* `Backend.Describes` -- when a configuration is read as a backend (`ofJson_eq_ok_iff`);
* `Backend.ofJson_toJson_of_url` -- the object of a backend is read as that backend, its mapping
  made a table;
* `Backend.settings_round_trip` -- for a mapping that is a table, nothing changes at all, and what
  any configuration is read as is written in a form that stays.
-/

namespace ChatRelay

/-! ## 1. Written settings -/

/-- A dialect is known by its name. -/
theorem Dialect.ofText_name (d : Dialect) : ofText d.name = .ok d := by
  cases d <;> rfl

namespace Backend

variable {j : Json} {u : Backend} {key fallback : Bytes}

/-- The fields of a configuration object. -/
theorem field?_toJson (u : Backend) (key : Bytes) :
    u.toJson.field? key =
      (Table.find?
        [(Bytes.ofString "name", .str u.name), ("serviceType", .str u.dialect.name),
          ("baseUrl", .str u.baseUrl), ("apiKeys", .strings u.apiKeys)] key).or
        ((Table.find?
          [(Bytes.ofString "baseUrls",
              if u.baseUrls.isEmpty then none else some (Json.strings u.baseUrls)),
            ("modelMapping",
              if u.models.isEmpty then none
              else some (.object (u.models.map fun e => (e.1, .str e.2))))] key).bind id) := by
  refine Json.field?_objectWith_of_nodup ?_ key
  simp only [List.map_cons, List.map_nil]
  decide

theorem textSetting_of_field? {s : Bytes} (h : j.field? key = some (.str s)) :
    textSetting j key fallback = .ok s := by
  rw [textSetting, h]

theorem textsSetting_of_field? {texts : List Bytes} (h : j.field? key = some (.strings texts)) :
    textsSetting j key = .ok texts := by
  rw [textsSetting, h]
  exact mapM_map_eq_ok (f := text) (g := Json.str) (fun _ => rfl) texts

theorem tableSetting_of_field? {t : Table Bytes Bytes}
    (h : j.field? key = some (.object (t.map fun e => (e.1, .str e.2)))) :
    tableSetting j key = .ok (Table.ofList t) := by
  rw [tableSetting, h, Json.object, Table.ofList_map]
  refine mapM_map_eq_ok (fun e => ?_) (Table.ofList t)
  rfl

/-- Further URLs are read as they were written, or as none where they were left out. -/
theorem textsSetting_baseUrls (u : Backend) :
    textsSetting u.toJson "baseUrls" = .ok u.baseUrls := by
  have hfield : u.toJson.field? "baseUrls" =
      if u.baseUrls.isEmpty then none else some (.strings u.baseUrls) := u.field?_toJson "baseUrls"
  cases hempty : u.baseUrls.isEmpty with
  | true =>
    rw [hempty, if_pos rfl] at hfield
    rw [textsSetting, hfield, List.isEmpty_iff.mp hempty]
  | false =>
    rw [hempty] at hfield
    exact textsSetting_of_field? hfield

/-- The mapping is read as a table of what was written, or as empty where it was left out. -/
theorem tableSetting_modelMapping (u : Backend) :
    tableSetting u.toJson "modelMapping" = .ok (Table.ofList u.models) := by
  have hfield : u.toJson.field? "modelMapping" =
      if u.models.isEmpty then none else some (.object (u.models.map fun e => (e.1, .str e.2))) :=
    u.field?_toJson "modelMapping"
  cases hempty : u.models.isEmpty with
  | true =>
    rw [hempty, if_pos rfl] at hfield
    rw [tableSetting, hfield, List.isEmpty_iff.mp hempty]
    rfl
  | false =>
    rw [hempty] at hfield
    exact tableSetting_of_field? hfield

/-! ## 2. Round trips -/

/-- **A configuration describes a backend** when each of its settings reads as the backend has it,
    and there is a base URL. -/
structure Describes (j : Json) (u : Backend) : Prop where
  object : j.isObject = true
  name : textSetting j "name" [] = .ok u.name
  dialect : ∃ service, textSetting j "serviceType" "claude" = .ok service ∧
    Dialect.ofText service = .ok u.dialect
  baseUrl : textSetting j "baseUrl" [] = .ok u.baseUrl
  baseUrls : textsSetting j "baseUrls" = .ok u.baseUrls
  apiKeys : textsSetting j "apiKeys" = .ok u.apiKeys
  models : tableSetting j "modelMapping" = .ok u.models
  url : u.effectiveBaseUrl ≠ []

theorem ofJson_eq_ok_iff : ofJson j = .ok u ↔ Describes j u := by
  constructor
  · intro h
    by_cases hobject : j.isObject = true
    · rw [ofJson, if_pos hobject] at h
      obtain ⟨name, hname, h⟩ := bind_eq_ok_iff.mp h
      obtain ⟨service, hservice, h⟩ := bind_eq_ok_iff.mp h
      obtain ⟨dialect, hdialect, h⟩ := bind_eq_ok_iff.mp h
      obtain ⟨baseUrl, hbaseUrl, h⟩ := bind_eq_ok_iff.mp h
      obtain ⟨baseUrls, hbaseUrls, h⟩ := bind_eq_ok_iff.mp h
      obtain ⟨apiKeys, hapiKeys, h⟩ := bind_eq_ok_iff.mp h
      obtain ⟨models, hmodels, h⟩ := bind_eq_ok_iff.mp h
      dsimp only at h
      split at h
      · cases h
      · rename_i hurl
        cases h
        exact ⟨hobject, hname, ⟨service, hservice, hdialect⟩, hbaseUrl, hbaseUrls, hapiKeys,
          hmodels, fun hempty => hurl (List.isEmpty_iff.mpr hempty)⟩
    · rw [ofJson, if_neg hobject] at h
      cases h
  · rintro ⟨hobject, hname, ⟨service, hservice, hdialect⟩, hbaseUrl, hbaseUrls, hapiKeys, hmodels,
      hurl⟩
    rw [ofJson, if_pos hobject, hname, hservice, hbaseUrl, hbaseUrls, hapiKeys, hmodels]
    simp only [bind, Except.bind, hdialect]
    exact if_neg fun hempty => hurl (List.isEmpty_iff.mp hempty)

/-- What any backend's configuration object is read as: the same backend, its mapping made a
    table. -/
theorem ofJson_toJson_of_url (h : u.effectiveBaseUrl ≠ []) :
    ofJson u.toJson = .ok { u with models := Table.ofList u.models } :=
  ofJson_eq_ok_iff.mpr {
    object := rfl
    name := textSetting_of_field? (u.field?_toJson "name")
    dialect := ⟨u.dialect.name, textSetting_of_field? (u.field?_toJson "serviceType"),
      u.dialect.ofText_name⟩
    baseUrl := textSetting_of_field? (u.field?_toJson "baseUrl")
    baseUrls := textsSetting_baseUrls u
    apiKeys := textsSetting_of_field? (u.field?_toJson "apiKeys")
    models := tableSetting_modelMapping u
    url := h }

/-- A mapping is written as the table that it makes. -/
theorem toJson_ofList (u : Backend) :
    toJson { u with models := Table.ofList u.models } = u.toJson := by
  have hmodels : Json.object ((Table.ofList u.models).map fun e => (e.1, .str e.2)) =
      .object (u.models.map fun e => (e.1, .str e.2)) := by
    rw [Json.object, Json.object, Table.ofList_map, Table.ofList_map,
      Table.ofList_of_sorted (Table.sorted_ofList _)]
  rw [toJson, toJson]
  simp only [Table.isEmpty_ofList, hmodels]

/-- **A backend is read back from its configuration object**, all of it, when its mapping is a table
and it has a base URL. And a configuration that is accepted at all, in whatever spelling, is written
in a form that reading and writing leave as it is; reading it keeps the base URL in use. -/
theorem settings_round_trip :
    (∀ u : Backend, Table.Sorted u.models → u.effectiveBaseUrl ≠ [] → ofJson u.toJson = .ok u) ∧
    ∀ j u, ofJson j = .ok u →
      (ofJson u.toJson).map toJson = .ok u.toJson ∧
      (ofJson u.toJson).map effectiveBaseUrl = .ok u.effectiveBaseUrl := by
  constructor
  · intro u hsorted hurl
    rw [ofJson_toJson_of_url hurl, Table.ofList_of_sorted hsorted]
  · intro j u h
    rw [ofJson_toJson_of_url (ofJson_eq_ok_iff.mp h).url]
    exact ⟨congrArg Except.ok u.toJson_ofList, rfl⟩

/-- A backend with no URL but a further one, and the like read off a configuration that names its
dialect in capitals and has an empty mapping. -/
theorem settings_round_trip_fallback :
    let u : Backend := ⟨"g", .gemini, [], ["https://a", ""], [], [("", "m"), ("opus", "n")]⟩
    let j : Json := .object [("baseUrls", .strings ["https://a", ""]),
      ("serviceType", .str "GEMINI"), ("modelMapping", .obj [])]
    let v : Backend := ⟨[], .gemini, [], ["https://a", ""], [], []⟩
    ofJson u.toJson = .ok u ∧ ofJson j = .ok v ∧ (ofJson v.toJson).map toJson = .ok v.toJson ∧
      (ofJson v.toJson).map effectiveBaseUrl = .ok "https://a" := by
  intro u j v
  have hsorted : Table.Sorted u.models := by
    unfold Table.Sorted
    decide +kernel
  have hread : ofJson j = .ok v := rfl
  exact ⟨settings_round_trip.1 u hsorted (by decide +kernel), hread,
    settings_round_trip.2 j v hread⟩

end Backend

end ChatRelay
