import ChatRelay.Table

/-!
# Tables as sorted lists

What the operations on tables do to the entries, and that they keep the keys in order. In a table
an entry is found by its key (`find?_eq_some_iff`), one key has one entry at most (`filter_key`),
and two tables with the same lookups are the same (`eq_of_find?_eq`).
-/

namespace ChatRelay.Table

variable {κ ν : Type} [LT κ] [DecidableLT κ] [DecidableEq κ] {t : Table κ ν} {k : κ} {v : ν}

/-! ## 1. Entries -/

/-- An entry after an insertion is the new one or was there before. -/
theorem mem_insert {e : κ × ν} (h : e ∈ insert t k v) : e = (k, v) ∨ e ∈ t := by
  induction t with
  | nil => exact Or.inl (List.mem_singleton.mp h)
  | cons head t ih =>
    obtain ⟨k', v'⟩ := head
    rw [insert] at h
    split at h
    · exact (List.mem_cons.mp h).imp id (List.mem_cons_of_mem _)
    · split at h
      · exact List.mem_cons.mp h
      · rcases List.mem_cons.mp h with rfl | h
        · exact Or.inr List.mem_cons_self
        · exact (ih h).imp id (List.mem_cons_of_mem _)

theorem mem_of_mem_foldl_insert {entries : List (κ × ν)} {e : κ × ν}
    (h : e ∈ entries.foldl (fun t e => insert t e.1 e.2) t) : e ∈ entries ∨ e ∈ t := by
  induction entries generalizing t with
  | nil => exact Or.inr h
  | cons head entries ih =>
    rcases ih h with h | h
    · exact Or.inl (List.mem_cons_of_mem head h)
    · rcases mem_insert h with rfl | h
      · exact Or.inl List.mem_cons_self
      · exact Or.inr h

/-- The entries of a table come from the list that it was made of. -/
theorem mem_of_mem_ofList {entries : List (κ × ν)} {e : κ × ν} (h : e ∈ ofList entries) :
    e ∈ entries :=
  (mem_of_mem_foldl_insert h).resolve_right List.not_mem_nil

omit [LT κ] [DecidableLT κ] in
theorem mem_of_find? (h : find? t k = some v) : (k, v) ∈ t := by
  induction t with
  | nil => cases h
  | cons head t ih =>
    obtain ⟨k', v'⟩ := head
    rw [find?] at h
    split at h
    · rename_i hk
      cases h
      rw [hk]
      exact List.mem_cons_self
    · exact List.mem_cons_of_mem _ (ih h)

/-- **Of entries with one key the last counts**, and without one it is as before. -/
theorem find?_foldl_insert_eq (entries : List (κ × ν)) :
    find? (entries.foldl (fun t e => insert t e.1 e.2) t) k =
      ((entries.filter (·.1 = k)).getLast?.map (·.2)).or (find? t k) := by
  induction entries generalizing t with
  | nil => rfl
  | cons head entries ih =>
    rw [List.foldl_cons, ih, find?_insert, List.filter_cons]
    by_cases hk : head.1 = k
    · rw [if_pos hk.symm, if_pos (decide_eq_true hk), List.getLast?_cons]
      cases (entries.filter (·.1 = k)).getLast? <;> rfl
    · rw [if_neg (Ne.symm hk), if_neg (by simpa using hk)]

/-- Insertions under other keys do not matter to a lookup. -/
theorem find?_foldl_insert {entries : List (κ × ν)} (h : ∀ e ∈ entries, e.1 ≠ k) :
    find? (entries.foldl (fun t e => insert t e.1 e.2) t) k = find? t k := by
  have hnone : entries.filter (·.1 = k) = [] :=
    List.filter_eq_nil_iff.mpr fun e he hk => h e he (of_decide_eq_true hk)
  rw [find?_foldl_insert_eq, hnone]
  rfl

omit [LT κ] [DecidableLT κ] in
theorem find?_append (t u : Table κ ν) (k : κ) :
    find? (t ++ u) k = (find? t k).or (find? u k) := by
  induction t with
  | nil => rfl
  | cons head t ih =>
    obtain ⟨k', v'⟩ := head
    rw [List.cons_append, find?, find?]
    by_cases hk : k' = k
    · rw [if_pos hk, if_pos hk]
      rfl
    · rw [if_neg hk, if_neg hk]
      exact ih

omit [LT κ] [DecidableLT κ] in
theorem find?_eq_none (h : ∀ e ∈ t, e.1 ≠ k) : find? t k = none := by
  induction t with
  | nil => rfl
  | cons head t ih =>
    obtain ⟨k', v'⟩ := head
    obtain ⟨hhead, htail⟩ := List.forall_mem_cons.mp h
    rw [find?, if_neg hhead]
    exact ih htail

/-- A lookup in a table made of a list without repeated keys is a lookup in the list. -/
theorem find?_foldl_insert_of_nodup {entries : List (κ × ν)} (h : (entries.map (·.1)).Nodup) :
    find? (entries.foldl (fun t e => insert t e.1 e.2) t) k = (find? entries k).or (find? t k) := by
  induction entries generalizing t with
  | nil => rfl
  | cons head entries ih =>
    obtain ⟨k', v'⟩ := head
    obtain ⟨hfresh, hentries⟩ := List.nodup_cons.mp h
    rw [List.foldl_cons, ih hentries, find?]
    by_cases hk : k' = k
    · have hnone : find? entries k = none := by
        refine find?_eq_none fun e he heq => hfresh ?_
        exact List.mem_map.mpr ⟨e, he, heq.trans hk.symm⟩
      rw [hnone, if_pos hk, ← hk, find?_insert_self]
      rfl
    · rw [find?_insert_of_ne t v' (Ne.symm hk), if_neg hk]

theorem find?_ofList {entries : List (κ × ν)} (h : (entries.map (·.1)).Nodup) :
    find? (ofList entries) k = find? entries k := by
  rw [ofList, find?_foldl_insert_of_nodup h]
  exact Option.or_none

theorem insert_map {μ : Type} (f : ν → μ) (t : Table κ ν) (k : κ) (v : ν) :
    insert (t.map fun e => (e.1, f e.2)) k (f v) = (insert t k v).map fun e => (e.1, f e.2) := by
  induction t with
  | nil => rfl
  | cons head t ih =>
    obtain ⟨k', v'⟩ := head
    rw [List.map_cons, insert, insert, ih]
    split
    · rfl
    · split <;> rfl

/-- Values can be converted before a table is made or in the table. -/
theorem ofList_map {μ : Type} (f : ν → μ) (entries : List (κ × ν)) :
    ofList (entries.map fun e => (e.1, f e.2)) = (ofList entries).map fun e => (e.1, f e.2) := by
  have hfoldl : ∀ t : Table κ ν,
      (entries.map fun e => (e.1, f e.2)).foldl (fun t e => insert t e.1 e.2)
          (t.map fun e => (e.1, f e.2)) =
        (entries.foldl (fun t e => insert t e.1 e.2) t).map fun e => (e.1, f e.2) := by
    induction entries with
    | nil => exact fun t => rfl
    | cons head entries ih =>
      intro t
      rw [List.map_cons, List.foldl_cons, List.foldl_cons, insert_map, ih]
  exact hfoldl []

theorem insert_ne_nil (t : Table κ ν) (k : κ) (v : ν) : insert t k v ≠ [] := by
  cases t with
  | nil => exact List.cons_ne_nil _ _
  | cons head t =>
    obtain ⟨k', v'⟩ := head
    rw [insert]
    split
    · exact List.cons_ne_nil _ _
    · split <;> exact List.cons_ne_nil _ _

theorem isEmpty_ofList (entries : List (κ × ν)) : (ofList entries).isEmpty = entries.isEmpty := by
  rcases List.eq_nil_or_concat entries with rfl | ⟨init, e, rfl⟩
  · rfl
  · rw [List.concat_eq_append]
    have hlast : ofList (init ++ [e]) = insert (ofList init) e.1 e.2 := List.foldl_append
    rw [hlast, List.isEmpty_eq_false_iff.mpr (insert_ne_nil _ _ _), List.isEmpty_eq_false_iff.mpr]
    exact List.append_ne_nil_of_right_ne_nil _ (List.cons_ne_nil _ _)

/-! ## 2. Order -/

omit [DecidableLT κ] [DecidableEq κ] in
/-- What a table keeps of its entries stays in order. -/
theorem Sorted.filter (p : κ × ν → Bool) (ht : Sorted t) : Sorted (t.filter p) :=
  List.Pairwise.filter p ht

section

variable [Std.Irrefl fun a b : κ => a < b]

omit [DecidableLT κ] in
/-- In a table an entry is found by its key. -/
theorem find?_eq_some_iff (ht : Sorted t) {v : ν} : find? t k = some v ↔ (k, v) ∈ t := by
  refine ⟨mem_of_find?, fun h => ?_⟩
  induction t with
  | nil => cases h
  | cons head t ih =>
    obtain ⟨k', v'⟩ := head
    obtain ⟨hhead, htail⟩ := List.pairwise_cons.mp ht
    rw [find?]
    rcases List.mem_cons.mp h with heq | h
    · cases heq
      exact if_pos rfl
    · rw [if_neg, ih htail h]
      intro heq
      have hlt : k' < k := hhead (k, v) h
      rw [heq] at hlt
      exact Std.lt_irrefl hlt

omit [DecidableLT κ] in
/-- A lookup among the entries that are kept. -/
theorem find?_filter (ht : Sorted t) (p : κ × ν → Bool) :
    find? (t.filter p) k = (find? t k).filter fun v => p (k, v) := by
  ext v
  rw [find?_eq_some_iff (ht.filter p), List.mem_filter, ← find?_eq_some_iff ht,
    Option.filter_eq_some_iff]

omit [DecidableLT κ] in
/-- One key has one entry at most. -/
theorem filter_key (ht : Sorted t) :
    t.filter (·.1 = k) = ((find? t k).map (k, ·)).toList := by
  induction t with
  | nil => rfl
  | cons head t ih =>
    obtain ⟨k', v'⟩ := head
    obtain ⟨hhead, htail⟩ := List.pairwise_cons.mp ht
    by_cases heq : k' = k
    · have hnone : t.filter (·.1 = k) = [] := by
        refine List.filter_eq_nil_iff.mpr fun e he hk => ?_
        have hlt : k' < e.1 := hhead e he
        rw [of_decide_eq_true hk, heq] at hlt
        exact Std.lt_irrefl hlt
      rw [List.filter_cons_of_pos (by exact decide_eq_true heq), hnone, find?, if_pos heq, heq]
      rfl
    · rw [List.filter_cons_of_neg (by simpa using heq), ih htail, find?, if_neg heq]

omit [DecidableLT κ] [DecidableEq κ] in
theorem Sorted.nodup_keys (ht : Sorted t) : (t.map (·.1)).Nodup := by
  refine List.pairwise_map.mpr (List.Pairwise.imp (fun {a b} hlt heq => ?_) ht)
  rw [heq] at hlt
  exact Std.lt_irrefl hlt

end

section

variable [Std.Trichotomous fun a b : κ => a < b]
  [Trans (fun a b : κ => a < b) (fun a b : κ => a < b) (fun a b : κ => a < b)]

theorem sorted_insert (ht : Sorted t) (k : κ) (v : ν) : Sorted (insert t k v) := by
  induction t with
  | nil => exact List.pairwise_singleton _ _
  | cons head t ih =>
    obtain ⟨k', v'⟩ := head
    obtain ⟨hhead, htail⟩ := List.pairwise_cons.mp ht
    rw [insert]
    by_cases heq : k = k'
    · rw [if_pos heq]
      refine List.pairwise_cons.mpr ⟨fun e he => ?_, htail⟩
      show k < e.1
      rw [heq]
      exact hhead e he
    · rw [if_neg heq]
      by_cases hlt : k < k'
      · rw [if_pos hlt]
        refine List.pairwise_cons.mpr ⟨fun e he => ?_, ht⟩
        rcases List.mem_cons.mp he with rfl | he
        · exact hlt
        · exact Std.lt_trans hlt (hhead e he)
      · rw [if_neg hlt]
        refine List.pairwise_cons.mpr ⟨fun e he => ?_, ih htail⟩
        rcases mem_insert he with rfl | he
        · exact ((Std.lt_trichotomy k k').resolve_left hlt).resolve_left heq
        · exact hhead e he

theorem sorted_ofList (entries : List (κ × ν)) : Sorted (ofList entries) := by
  have hfoldl : ∀ {t : Table κ ν}, Sorted t →
      Sorted (entries.foldl (fun t e => insert t e.1 e.2) t) := by
    induction entries with
    | nil => exact fun ht => ht
    | cons head entries ih => exact fun ht => ih (sorted_insert ht head.1 head.2)
  exact hfoldl List.Pairwise.nil

variable [Std.Irrefl fun a b : κ => a < b]

omit [DecidableLT κ] [Std.Trichotomous fun a b : κ => a < b] in
/-- **Two tables with the same lookups are the same.** -/
theorem eq_of_find?_eq {u : Table κ ν} (ht : Sorted t) (hu : Sorted u)
    (h : ∀ k, find? t k = find? u k) : t = u := by
  have hmem (e : κ × ν) : e ∈ t ↔ e ∈ u := by
    rw [← find?_eq_some_iff ht, ← find?_eq_some_iff hu, h]
  have hnodup {t : Table κ ν} (ht : Sorted t) : t.Nodup :=
    List.Pairwise.of_map (·.1) (fun _ _ hne heq => hne (congrArg _ heq)) ht.nodup_keys
  have hperm : t.Perm u := (List.perm_ext_iff_of_nodup (hnodup ht) (hnodup hu)).mpr hmem
  refine hperm.eq_of_pairwise (fun a b _ _ hab hba => ?_) ht hu
  exact absurd (Std.lt_trans hab hba) Std.lt_irrefl

/-- A list that is a table already makes that table. -/
theorem ofList_of_sorted (ht : Sorted t) : ofList t = t :=
  eq_of_find?_eq (sorted_ofList t) ht fun _ => find?_ofList ht.nodup_keys

end

end ChatRelay.Table
