import ChatRelay.Text.Bytes

/-!
# Texts within texts

Where one text occurs in another, for the operations that look for it: `contains` finds an
occurrence exactly when there is one, `afterFirst?` cuts at the first one, and `cut?` at the first
of one byte.
-/

namespace ChatRelay.Bytes

variable {s needle : Bytes} {sep : UInt8}

theorem contains_iff : contains s needle = true ↔ needle <:+: s := by
  induction s with
  | nil => simp [contains]
  | cons b s ih => simp [contains, ih, List.infix_cons_iff]

/-- **The first occurrence is the one that was put there**, when the text before it has none, nor
    one that ends in the needle's own beginning. -/
theorem afterFirst?_append (hneedle : needle ≠ []) {before : Bytes}
    (h : ¬ needle <:+: before ++ needle.dropLast) (after : Bytes) :
    afterFirst? needle (before ++ needle ++ after) = some after := by
  induction before with
  | nil =>
    obtain ⟨c, rest, rfl⟩ := List.exists_cons_of_ne_nil hneedle
    have hhere : (c :: rest).isPrefixOf (c :: (rest ++ after)) = true :=
      List.isPrefixOf_iff_prefix.mpr (List.prefix_append (c :: rest) after)
    rw [List.nil_append, List.cons_append, afterFirst?, if_pos hhere, ← List.cons_append,
      List.drop_left]
  | cons b before ih =>
    have hlater : ¬ needle <:+: before ++ needle.dropLast :=
      fun hfound => h (hfound.trans (List.infix_cons (List.infix_refl _)))
    -- an occurrence at the very beginning would end before the needle that was put there does
    have hhere : ¬ needle.isPrefixOf (b :: (before ++ needle ++ after)) = true := by
      intro hprefix
      have hwhole : needle <+:
          b :: before ++ needle.dropLast ++ ([needle.getLast hneedle] ++ after) := by
        rw [← List.append_assoc, List.append_assoc (b :: before),
          List.dropLast_concat_getLast hneedle]
        exact List.isPrefixOf_iff_prefix.mp hprefix
      have hshort : needle.length ≤ (b :: before ++ needle.dropLast).length := by
        have hpos := List.length_pos_iff.mpr hneedle
        simp only [List.length_append, List.length_cons, List.length_dropLast]
        omega
      exact h (List.prefix_of_prefix_length_le hwhole (List.prefix_append _ _) hshort).isInfix
    rw [List.cons_append, List.cons_append, afterFirst?, if_neg hhere]
    exact ih hlater

/-- A text is cut where a byte was put that it does not have before. -/
theorem cut?_append_sep (h : sep ∉ s) (after : Bytes) :
    cut? sep (s ++ sep :: after) = some (s, after) := by
  induction s with
  | nil => rw [List.nil_append, cut?, if_pos rfl]
  | cons b s ih =>
    obtain ⟨hb, hs⟩ := List.ne_and_not_mem_of_not_mem_cons h
    rw [List.cons_append, cut?, if_neg (Ne.symm hb), ih hs]
    rfl

theorem cut?_of_notMem (h : sep ∉ s) : cut? sep s = none := by
  induction s with
  | nil => rfl
  | cons b s ih =>
    obtain ⟨hb, hs⟩ := List.ne_and_not_mem_of_not_mem_cons h
    rw [cut?, if_neg (Ne.symm hb), ih hs]
    rfl

end ChatRelay.Bytes
