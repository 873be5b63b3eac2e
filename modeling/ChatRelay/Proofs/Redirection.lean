import ChatRelay.Backend
import ChatRelay.Proofs.Substrings
import ChatRelay.Proofs.Tables

/-!
# Redirection of model names

A backend's mapping has a name for some sources, and a model that is no source itself goes by the
best of those that are related to it (`IsBest`). The entries are tried from the longest source to
the shortest; that sources of one length stay in the byte order of the table (`filter_byLength`) is
what makes the first match the best one.

* `Backend.redirect_picks_best` -- the very name, else the best related source, else no change.
-/

namespace ChatRelay.Backend

variable {models : Table Bytes Bytes} {model source : Bytes} {e e' : Bytes × Bytes}

/-- One of the two names contains the other. -/
def Related (model source : Bytes) : Prop :=
  source <:+: model ∨ model <:+: source

theorem related_iff :
    (model.contains source || source.contains model) = true ↔ Related model source := by
  rw [Bool.or_eq_true, Bytes.contains_iff, Bytes.contains_iff, Related]

instance (model source : Bytes) : Decidable (Related model source) :=
  decidable_of_iff _ related_iff

/-- **The best entry for a model**: of the entries whose source is related to it, this one has the
    longest source, and of those as long the first in byte order. -/
structure IsBest (models : Table Bytes Bytes) (model : Bytes) (e : Bytes × Bytes) : Prop where
  mem : e ∈ models
  related : Related model e.1
  longest : ∀ other ∈ models, Related model other.1 → other.1.length ≤ e.1.length
  first : ∀ other ∈ models, Related model other.1 → other.1.length = e.1.length →
    other = e ∨ e.1 < other.1

theorem IsBest.unique (h : IsBest models model e) (h' : IsBest models model e') : e' = e := by
  have hlength : e'.1.length = e.1.length :=
    Nat.le_antisymm (h.longest e' h'.mem h'.related) (h'.longest e h.mem h.related)
  rcases h.first e' h'.mem h'.related hlength with heq | hlt
  · exact heq
  · rcases h'.first e h.mem h.related hlength.symm with heq | hgt
    · exact heq.symm
    · exact absurd (Std.lt_trans hlt hgt) Std.lt_irrefl

/-! ## 1. The order of trying -/

/-- What is found first stands before whatever else could have been found. -/
theorem eq_or_rel_of_find? {α : Type} {r : α → α → Prop} {p : α → Bool} {l : List α} {a b : α}
    (h : l.Pairwise r) (hfind : l.find? p = some a) (hb : b ∈ l) (hp : p b = true) :
    b = a ∨ r a b := by
  obtain ⟨-, before, after, rfl, hbefore⟩ := List.find?_eq_some_iff_append.mp hfind
  rcases List.mem_append.mp hb with hmem | hmem
  · have hnot := hbefore b hmem
    rw [hp] at hnot
    cases hnot
  · rcases List.mem_cons.mp hmem with rfl | hmem
    · exact .inl rfl
    · exact .inr (List.rel_of_pairwise_cons (List.pairwise_append.mp h).2.1 hmem)

theorem length_le_trans (a b c : Bytes × Bytes) (hab : decide (b.1.length ≤ a.1.length) = true)
    (hbc : decide (c.1.length ≤ b.1.length) = true) : decide (c.1.length ≤ a.1.length) = true := by
  rw [decide_eq_true_eq] at hab hbc ⊢
  exact Nat.le_trans hbc hab

theorem length_le_total (a b : Bytes × Bytes) :
    (decide (b.1.length ≤ a.1.length) || decide (a.1.length ≤ b.1.length)) = true := by
  rw [Bool.or_eq_true, decide_eq_true_eq, decide_eq_true_eq]
  exact Nat.le_total _ _

/-- Longer sources are tried before shorter ones. -/
theorem pairwise_byLength (models : Table Bytes Bytes) :
    (byLength models).Pairwise fun a b => b.1.length ≤ a.1.length :=
  (List.pairwise_mergeSort length_le_trans length_le_total models).imp of_decide_eq_true

/-- **Sources of one length are tried in the order of the table.** -/
theorem filter_byLength (models : Table Bytes Bytes) (n : Nat) :
    (byLength models).filter (·.1.length = n) = models.filter (·.1.length = n) := by
  have hequal : (models.filter (·.1.length = n)).Pairwise
      fun a b => decide (b.1.length ≤ a.1.length) = true := by
    refine List.pairwise_of_forall_mem_list fun a ha b hb => decide_eq_true ?_
    have ha : a.1.length = n := of_decide_eq_true (List.mem_filter.mp ha).2
    have hb : b.1.length = n := of_decide_eq_true (List.mem_filter.mp hb).2
    exact Nat.le_of_eq (hb.trans ha.symm)
  have hkept : (models.filter (·.1.length = n)).Sublist (byLength models) :=
    List.sublist_mergeSort length_le_trans length_le_total hequal List.filter_sublist
  have hfiltered := hkept.filter fun e => decide (e.1.length = n)
  simp only [List.filter_filter, Bool.and_self] at hfiltered
  have hperm : (byLength models).Perm models := List.mergeSort_perm _ _
  exact (hfiltered.eq_of_length (hperm.filter _).length_eq.symm).symm

/-- What is found first is found first among the sources of its length, too. -/
theorem find?_ofLength {p : Bytes × Bytes → Bool} (hfind : (byLength models).find? p = some e) :
    (models.filter (·.1.length = e.1.length)).find? p = some e := by
  obtain ⟨hp, before, after, hsplit, hbefore⟩ := List.find?_eq_some_iff_append.mp hfind
  have hlength : decide (e.1.length = e.1.length) = true := decide_eq_true rfl
  rw [← filter_byLength, hsplit, List.filter_append, List.filter_cons, if_pos hlength,
    List.find?_eq_some_iff_append]
  exact ⟨hp, _, _, rfl, fun a ha => hbefore a (List.mem_filter.mp ha).1⟩

/-! ## 2. The best entry -/

/-- **The first match is the best one.** -/
theorem isBest_of_find? (hsorted : Table.Sorted models)
    (hfind : (byLength models).find? (fun e => model.contains e.1 || e.1.contains model) = some e) :
    IsBest models model e where
  mem := List.mem_mergeSort.mp (List.mem_of_find?_eq_some hfind)
  related := by
    obtain ⟨hp, -⟩ := List.find?_eq_some_iff_append.mp hfind
    exact related_iff.mp hp
  longest other hother hrelated := by
    have hmem : other ∈ byLength models := List.mem_mergeSort.mpr hother
    rcases eq_or_rel_of_find? (pairwise_byLength models) hfind hmem (related_iff.mpr hrelated) with
      rfl | hle
    · exact Nat.le_refl _
    · exact hle
  first other hother hrelated hlength :=
    have hmem : other ∈ models.filter (·.1.length = e.1.length) :=
      List.mem_filter.mpr ⟨hother, decide_eq_true hlength⟩
    eq_or_rel_of_find? (hsorted.filter _) (find?_ofLength hfind) hmem (related_iff.mpr hrelated)

/-- **A model goes by the name that the mapping has for it**; else by the one of the best source
that is related to it, and there is just one such source as soon as one is related; else by its
own. -/
theorem redirect_picks_best (b : Backend) (model : Bytes) (hsorted : Table.Sorted b.models) :
    (∀ target, (model, target) ∈ b.models → b.redirect model = target) ∧
    ((∀ target, (model, target) ∉ b.models) →
      ((∃ e ∈ b.models, Related model e.1) → ∃ e, IsBest b.models model e) ∧
      (∀ e, IsBest b.models model e → b.redirect model = e.2) ∧
      ((∀ e ∈ b.models, ¬ Related model e.1) → b.redirect model = model)) := by
  constructor
  · intro target hmem
    rw [redirect, (Table.find?_eq_some_iff hsorted).mpr hmem]
  · intro hnone
    have hexact : Table.find? b.models model = none :=
      Option.eq_none_iff_forall_ne_some.mpr fun target hfind =>
        hnone target (Table.mem_of_find? hfind)
    rw [redirect, hexact]
    cases hfind : (byLength b.models).find? fun e => model.contains e.1 || e.1.contains model with
    | some e =>
      have hbest := isBest_of_find? hsorted hfind
      refine ⟨fun _ => ⟨e, hbest⟩, fun e' hbest' => ?_, fun hunrelated => ?_⟩
      · rw [hbest.unique hbest']
      · exact absurd hbest.related (hunrelated e hbest.mem)
    | none =>
      have hunrelated : ∀ e ∈ b.models, ¬ Related model e.1 := fun e he hrelated =>
        List.find?_eq_none.mp hfind e (List.mem_mergeSort.mpr he) (related_iff.mpr hrelated)
      refine ⟨fun ⟨e, he, hrelated⟩ => absurd hrelated (hunrelated e he), fun e hbest => ?_,
        fun _ => rfl⟩
      exact absurd hbest.related (hunrelated e hbest.mem)

/-- Two sources of two bytes are in the name, and one of a single byte stands between them. -/
theorem redirect_picks_best_of_tie :
    let b : Backend := ⟨"b", .claude, "https://h", [], [], [("aa", "1"), ("b", "2"), ("bb", "3")]⟩
    Table.Sorted b.models ∧ IsBest b.models "xbbaa" ("aa", "1") ∧ b.redirect "xbbaa" = "1" ∧
      b.redirect "b" = "2" ∧ b.redirect "y" = "y" := by
  intro b
  have hsorted : Table.Sorted b.models := by
    unfold Table.Sorted
    decide +kernel
  have hbest : IsBest b.models "xbbaa" ("aa", "1") :=
    ⟨by decide +kernel, by decide +kernel, by decide +kernel, by decide +kernel⟩
  have hnone {model : Bytes} (h : model ∉ b.models.map (·.1)) (target : Bytes) :
      (model, target) ∉ b.models := fun hmem => h (List.mem_map_of_mem hmem)
  refine ⟨hsorted, hbest, ?_, ?_, ?_⟩
  · exact ((redirect_picks_best b "xbbaa" hsorted).2 (hnone (by decide +kernel))).2.1 _ hbest
  · exact (redirect_picks_best b "b" hsorted).1 "2" (by decide +kernel)
  · exact ((redirect_picks_best b "y" hsorted).2 (hnone (by decide +kernel))).2.2
      (by decide +kernel)

end ChatRelay.Backend
