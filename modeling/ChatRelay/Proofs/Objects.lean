import ChatRelay.Json.Basic
import ChatRelay.Proofs.Tables

/-!
# Objects field by field

What the fields of an object are that was made of a list of fields, some of which may be missing
(`field?_objectWith_of_nodup`); and that an object is known when its fields are
(`eq_of_field?_eq`).
-/

namespace ChatRelay.Json

/-- Those further fields of an object that have a value. -/
def present (further : List (Bytes × Option Json)) : List (Bytes × Json) :=
  further.filterMap fun e => e.2.map (e.1, ·)

theorem keys_present (further : List (Bytes × Option Json)) :
    ((present further).map (·.1)).Sublist (further.map (·.1)) := by
  induction further with
  | nil => exact List.Sublist.refl _
  | cons head further ih =>
    obtain ⟨k, value⟩ := head
    cases value with
    | none => exact ih.cons k
    | some j => exact ih.cons_cons k

theorem find?_present {further : List (Bytes × Option Json)} (h : (further.map (·.1)).Nodup)
    (key : Bytes) : Table.find? (present further) key = (Table.find? further key).bind id := by
  induction further with
  | nil => rfl
  | cons head further ih =>
    obtain ⟨k, value⟩ := head
    obtain ⟨hfresh, hrest⟩ := List.nodup_cons.mp h
    cases value with
    | some j =>
      show Table.find? ((k, j) :: present further) key = _
      rw [Table.find?, Table.find?]
      by_cases hk : k = key
      · rw [if_pos hk, if_pos hk]
        rfl
      · rw [if_neg hk, if_neg hk]
        exact ih hrest
    | none =>
      show Table.find? (present further) key = _
      rw [ih hrest, Table.find?]
      by_cases hk : k = key
      · have hnone : Table.find? further key = none := by
          refine Table.find?_eq_none fun e he heq => hfresh ?_
          exact List.mem_map.mpr ⟨e, he, heq.trans hk.symm⟩
        rw [if_pos hk, hnone]
        rfl
      · rw [if_neg hk]

/-- **The fields of an object** that was made of fields under keys of their own. -/
theorem field?_objectWith_of_nodup {fields : List (Bytes × Json)}
    {further : List (Bytes × Option Json)}
    (h : (fields.map (·.1) ++ further.map (·.1)).Nodup) (key : Bytes) :
    (objectWith fields further).field? key =
      (Table.find? fields key).or ((Table.find? further key).bind id) := by
  have hsublist : ((fields ++ present further).map (·.1)).Sublist
      (fields.map (·.1) ++ further.map (·.1)) := by
    rw [List.map_append]
    exact (List.Sublist.refl _).append (keys_present further)
  show Table.find? (Table.ofList (fields ++ present further)) key = _
  rw [Table.find?_ofList (h.sublist hsublist), Table.find?_append,
    find?_present (List.nodup_append.mp h).2.1]

/-- **An object is known by its fields.** -/
theorem eq_of_field?_eq {fields fields' : List (Bytes × Json)} (h : Table.Sorted fields)
    (h' : Table.Sorted fields')
    (heq : ∀ key, (Json.obj fields).field? key = (Json.obj fields').field? key) :
    Json.obj fields = .obj fields' :=
  congrArg Json.obj (Table.eq_of_find?_eq h h' heq)

end ChatRelay.Json
