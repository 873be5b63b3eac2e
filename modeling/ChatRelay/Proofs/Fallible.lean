/-!
# Computations that may fail

When a computation in steps succeeds: each step does, on what the one before it gave. And when it
fails: one of the steps does.
-/

namespace ChatRelay

variable {ε α β : Type} {x : Except ε α}

theorem bind_eq_ok_iff {f : α → Except ε β} {b : β} :
    (x >>= f) = .ok b ↔ ∃ a, x = .ok a ∧ f a = .ok b := by
  cases x with
  | error e => simp [bind, Except.bind]
  | ok a => simp [bind, Except.bind]

theorem map_eq_ok_iff {f : α → β} {b : β} : x.map f = .ok b ↔ ∃ a, x = .ok a ∧ f a = b := by
  cases x with
  | error e => simp [Except.map]
  | ok a => simp [Except.map]

/-- What a computation gives, by what a test of it finds. -/
theorem exists_of_toOption_map {f : α → β} {b : β} (h : x.toOption.map f = some b) :
    ∃ a, x = .ok a ∧ f a = b := by
  cases x with
  | error e => cases h
  | ok a => exact ⟨a, rfl, Option.some.inj h⟩

theorem exists_of_isSome_toOption (h : x.toOption.isSome) : ∃ a, x = .ok a := by
  cases x with
  | error e => cases h
  | ok a => exact ⟨a, rfl⟩

/-- A list is worked through element by element. -/
theorem mapM_cons_eq_ok_iff {f : α → Except ε β} {a : α} {xs : List α} {bs : List β} :
    (a :: xs).mapM f = .ok bs ↔
      ∃ b, f a = .ok b ∧ ∃ rest, xs.mapM f = .ok rest ∧ b :: rest = bs := by
  rw [List.mapM_cons, bind_eq_ok_iff]
  constructor
  · intro h
    obtain ⟨b, hb, h⟩ := h
    obtain ⟨rest, hrest, h⟩ := bind_eq_ok_iff.mp h
    exact ⟨b, hb, rest, hrest, Except.ok.inj h⟩
  · intro h
    obtain ⟨b, hb, rest, hrest, rfl⟩ := h
    exact ⟨b, hb, bind_eq_ok_iff.mpr ⟨rest, hrest, rfl⟩⟩

/-- Two lists are worked through one after the other. -/
theorem mapM_append_eq_ok_iff {f : α → Except ε β} {xs ys : List α} {bs : List β} :
    (xs ++ ys).mapM f = .ok bs ↔
      ∃ s, xs.mapM f = .ok s ∧ ∃ t, ys.mapM f = .ok t ∧ s ++ t = bs := by
  rw [List.mapM_append, bind_eq_ok_iff]
  constructor
  · intro h
    obtain ⟨s, hs, h⟩ := h
    obtain ⟨t, ht, h⟩ := bind_eq_ok_iff.mp h
    exact ⟨s, hs, t, ht, Except.ok.inj h⟩
  · intro h
    obtain ⟨s, hs, t, ht, rfl⟩ := h
    exact ⟨s, hs, bind_eq_ok_iff.mpr ⟨t, ht, rfl⟩⟩

/-- A list whose elements all succeed is worked through. -/
theorem mapM_eq_ok_of_forall {f : α → Except ε β} {xs : List α}
    (h : ∀ a ∈ xs, ∃ b, f a = .ok b) : ∃ bs, xs.mapM f = .ok bs := by
  induction xs with
  | nil => exact ⟨[], rfl⟩
  | cons a xs ih =>
    obtain ⟨b, hb⟩ := h a List.mem_cons_self
    obtain ⟨bs, hbs⟩ := ih fun x hx => h x (List.mem_cons_of_mem a hx)
    exact ⟨b :: bs, mapM_cons_eq_ok_iff.mpr ⟨b, hb, bs, hbs, rfl⟩⟩

/-- What a list is worked through to comes of its elements. -/
theorem exists_mem_of_mapM_ok {f : α → Except ε β} {xs : List α} {bs : List β}
    (h : xs.mapM f = .ok bs) : ∀ b ∈ bs, ∃ a ∈ xs, f a = .ok b := by
  induction xs generalizing bs with
  | nil =>
    cases h
    exact List.forall_mem_nil _
  | cons a xs ih =>
    obtain ⟨first, hfirst, rest, hrest, rfl⟩ := mapM_cons_eq_ok_iff.mp h
    refine List.forall_mem_cons.mpr ⟨⟨a, List.mem_cons_self, hfirst⟩, fun b hb => ?_⟩
    obtain ⟨x, hx, hxb⟩ := ih hrest b hb
    exact ⟨x, List.mem_cons_of_mem a hx, hxb⟩

/-- What an element comes to is among what its list comes to. -/
theorem exists_mem_of_mem_mapM {f : α → Except ε β} {a : α} {xs : List α} {bs : List β}
    (h : xs.mapM f = .ok bs) (ha : a ∈ xs) : ∃ b ∈ bs, f a = .ok b := by
  induction xs generalizing bs with
  | nil => cases ha
  | cons first xs ih =>
    obtain ⟨b, hb, rest, hrest, rfl⟩ := mapM_cons_eq_ok_iff.mp h
    rcases List.mem_cons.mp ha with rfl | ha
    · exact ⟨b, List.mem_cons_self, hb⟩
    · obtain ⟨c, hc, hac⟩ := ih hrest ha
      exact ⟨c, List.mem_cons_of_mem b hc, hac⟩

theorem bind_eq_error_iff {f : α → Except ε β} {e : ε} :
    (x >>= f) = .error e ↔ x = .error e ∨ ∃ a, x = .ok a ∧ f a = .error e := by
  cases x with
  | error e => simp [bind, Except.bind]
  | ok a => simp [bind, Except.bind]

theorem map_eq_error_iff {f : α → β} {e : ε} : x.map f = .error e ↔ x = .error e := by
  cases x with
  | error e => simp [Except.map]
  | ok a => simp [Except.map]

/-- A list is worked through unless one of its elements fails. -/
theorem exists_mem_of_mapM_error {f : α → Except ε β} {xs : List α} {e : ε}
    (h : xs.mapM f = .error e) : ∃ a ∈ xs, f a = .error e := by
  induction xs with
  | nil => cases h
  | cons a xs ih =>
    rw [List.mapM_cons] at h
    obtain h | ⟨b, -, h⟩ := bind_eq_error_iff.mp h
    · exact ⟨a, List.mem_cons_self, h⟩
    · obtain h | ⟨bs, -, h⟩ := bind_eq_error_iff.mp h
      · obtain ⟨x, hx, hfail⟩ := ih h
        exact ⟨x, List.mem_cons_of_mem a hx, hfail⟩
      · cases h

/-- A list is worked through in two steps, of which only the first can fail. -/
theorem mapM_eq_map_mapM {γ : Type} {f : α → Except ε γ} {g : α → Except ε β} {k : β → γ}
    (h : ∀ a, f a = (g a).map k) (xs : List α) : xs.mapM f = (xs.mapM g).map (List.map k) := by
  induction xs with
  | nil => rfl
  | cons a xs ih =>
    rw [List.mapM_cons, List.mapM_cons, ih, h]
    cases g a with
    | error e => rfl
    | ok b => cases xs.mapM g <;> rfl

/-- What is undone element by element is undone for the list. -/
theorem mapM_map_eq_ok {f : β → Except ε α} {g : α → β} (h : ∀ a, f (g a) = .ok a) (xs : List α) :
    (xs.map g).mapM f = .ok xs := by
  induction xs with
  | nil => rfl
  | cons a xs ih => exact mapM_cons_eq_ok_iff.mpr ⟨a, h a, xs, ih, rfl⟩

/-- What every element keeps, the list keeps. -/
theorem map_eq_of_mapM {γ : Type} {f : α → Except ε β} {g : β → γ} {k : α → γ}
    (hf : ∀ a b, f a = .ok b → g b = k a) {xs : List α} {bs : List β} (h : xs.mapM f = .ok bs) :
    bs.map g = xs.map k := by
  induction xs generalizing bs with
  | nil =>
    cases h
    rfl
  | cons a xs ih =>
    obtain ⟨b, hb, rest, hrest, rfl⟩ := mapM_cons_eq_ok_iff.mp h
    rw [List.map_cons, List.map_cons, hf a b hb, ih hrest]

theorem filterMap_cons_eq_append (f : α → Option β) (a : α) (xs : List α) :
    (a :: xs).filterMap f = (f a).toList ++ xs.filterMap f := by
  rw [List.filterMap_cons]
  cases f a <;> rfl

/-- Steps that may pass over an element are the steps on the elements that they do not pass over. -/
theorem map_filterMap_mapM {γ δ : Type} {f : α → Except ε (Option δ)} {g : α → Option γ}
    {h : γ → Except ε δ}
    (hnone : ∀ a, g a = none → f a = .ok none)
    (hsome : ∀ a b, g a = some b → f a = (h b).map some) (xs : List α) :
    (xs.mapM f).map (·.filterMap id) = (xs.filterMap g).mapM h := by
  induction xs with
  | nil => rfl
  | cons a xs ih =>
    cases hg : g a with
    | none =>
      rw [List.mapM_cons, hnone a hg, List.filterMap_cons_none hg, ← ih]
      cases xs.mapM f <;> rfl
    | some b =>
      rw [List.mapM_cons, hsome a b hg, List.filterMap_cons_some hg, List.mapM_cons, ← ih]
      cases h b with
      | error e => rfl
      | ok c => cases xs.mapM f <;> rfl

theorem length_of_mapM {f : α → Except ε β} {xs : List α} {bs : List β}
    (h : xs.mapM f = .ok bs) : bs.length = xs.length := by
  induction xs generalizing bs with
  | nil =>
    cases h
    rfl
  | cons a xs ih =>
    obtain ⟨b, -, rest, hrest, rfl⟩ := mapM_cons_eq_ok_iff.mp h
    rw [List.length_cons, ih hrest, List.length_cons]

end ChatRelay
