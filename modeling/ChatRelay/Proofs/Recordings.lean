import Mathlib.Data.List.Basic
import Mathlib.Logic.Function.Basic
import ChatRelay.Bridge.RepliesClient
import ChatRelay.Proofs.Sessions

/-!
# Recording a reply in steps

To record a reply takes several operations on the session store: one that resumes a session, and one
for each change of it (`Recording.operations`). Each operation is atomic, but when several replies
are recorded at the same time any operations of the others may come in between. `Shared.run` lets
the recordings take their turns in any order; a recording that is left alone does what `record` does
(`store_run_alone`).

Lists that are worked off in such turns come out as a shuffle (`IsShuffle`).
-/

namespace ChatRelay

/-! ## 1. Shuffles -/

/-- `out` is a shuffle of lists that are told apart by a number: each element of `out` can be marked
    with the number of one of them, so that the elements under a number are its list, in order. -/
def IsShuffle {α : Type} (lists : Nat → List α) (out : List α) : Prop :=
  ∃ marked : List (Nat × α), marked.map (·.2) = out ∧
    ∀ k, (marked.filter (·.1 = k)).map (·.2) = lists k

namespace IsShuffle

variable {α β : Type} {lists : Nat → List α} {out : List α}

theorem nil : IsShuffle (fun _ => ([] : List α)) [] :=
  ⟨[], rfl, fun _ => rfl⟩

/-- One more element at the end of one of the lists. -/
theorem snoc (h : IsShuffle lists out) (k : Nat) (a : α) :
    IsShuffle (Function.update lists k (lists k ++ [a])) (out ++ [a]) := by
  obtain ⟨marked, hout, hlists⟩ := h
  refine ⟨marked ++ [(k, a)], by rw [List.map_append, hout]; rfl, fun i => ?_⟩
  rw [List.filter_append, List.map_append, hlists, Function.update_apply]
  by_cases hi : i = k
  · rw [if_pos hi, hi, List.filter_cons_of_pos (by exact decide_eq_true rfl)]
    rfl
  · rw [if_neg hi, List.filter_cons_of_neg (by simpa using Ne.symm hi)]
    exact List.append_nil _

/-- What is read off each element is shuffled alike. -/
theorem filterMap (h : IsShuffle lists out) (f : α → Option β) :
    IsShuffle (fun k => (lists k).filterMap f) (out.filterMap f) := by
  obtain ⟨marked, rfl, hlists⟩ := h
  have hread (marked : List (Nat × α)) :
      (marked.filterMap fun m => (f m.2).map (m.1, ·)).map (·.2) =
        (marked.map (·.2)).filterMap f := by
    rw [List.map_filterMap, List.filterMap_map]
    refine List.filterMap_congr fun m _ => ?_
    cases h : f m.2 <;> simp [h]
  refine ⟨marked.filterMap fun m => (f m.2).map (m.1, ·), hread marked, fun k => ?_⟩
  show _ = (lists k).filterMap f
  rw [← hlists, ← hread, List.filterMap_filter, List.filter_filterMap]
  congr 1
  refine List.filterMap_congr fun m _ => ?_
  by_cases hk : m.1 = k <;> cases f m.2 <;> simp [hk]

/-- **In a shuffle nothing is lost and nothing comes twice.** -/
theorem perm (h : IsShuffle lists out) {n : Nat} (hlists : ∀ k, n ≤ k → lists k = []) :
    out.Perm ((List.range n).flatMap lists) := by
  obtain ⟨marked, rfl, hmarked⟩ := h
  -- up to each number, by splitting off the elements that are marked with it
  have hbelow (m : Nat) :
      ((marked.filter (·.1 < m)).map (·.2)).Perm ((List.range m).flatMap lists) := by
    induction m with
    | zero =>
      rw [List.filter_eq_nil_iff.mpr fun e _ => by simp]
      exact List.Perm.nil
    | succ m ih =>
      have hsplit := (List.filter_append_perm (fun e => decide (e.1 < m))
        (marked.filter (·.1 < m + 1))).symm
      rw [List.filter_filter, List.filter_filter] at hsplit
      have hlow : (marked.filter fun e => decide (e.1 < m) && decide (e.1 < m + 1)) =
          marked.filter (·.1 < m) := by
        refine List.filter_congr fun e _ => ?_
        rw [← Bool.decide_and]
        exact decide_eq_decide.mpr (by omega)
      have htop : (marked.filter fun e => !decide (e.1 < m) && decide (e.1 < m + 1)) =
          marked.filter (·.1 = m) := by
        refine List.filter_congr fun e _ => ?_
        rw [← decide_not, ← Bool.decide_and]
        exact decide_eq_decide.mpr (by omega)
      rw [hlow, htop] at hsplit
      rw [List.range_succ, List.flatMap_append, List.flatMap_singleton, ← hmarked m]
      refine (hsplit.map (·.2)).trans ?_
      rw [List.map_append]
      exact ih.append_right _
  have hall : marked.filter (·.1 < n) = marked := by
    refine List.filter_eq_self.mpr fun e he => decide_eq_true (Nat.lt_of_not_le fun hn => ?_)
    have hnil := (hmarked e.1).trans (hlists e.1 hn)
    have hmem : e ∈ marked.filter (·.1 = e.1) := List.mem_filter.mpr ⟨he, decide_eq_true rfl⟩
    rw [List.map_eq_nil_iff.mp hnil] at hmem
    exact List.not_mem_nil hmem
  rw [← hall]
  exact hbelow n

end IsShuffle

namespace RepliesClient

open SessionStore (Change)

/-! ## 2. Recordings -/

/-- A reply that is to be recorded. -/
structure Recording where
  /-- What the client asked for. -/
  asked : Asked
  reply : Json
  /-- The id of the session, should it be a new one. -/
  freshId : Bytes

namespace Recording

/-- The exchange, unless the input cannot be read. -/
def exchange? (r : Recording) : Option SessionStore.Exchange :=
  (Item.ofInput r.asked.input).toOption.map fun input => exchangeOf input r.reply

/-- The changes of the session that is resumed. -/
def changes (r : Recording) : List Change :=
  (r.exchange?.map SessionStore.Exchange.changes).getD []

/-- The items of the exchange, those of the input first. -/
def items (r : Recording) : List Item :=
  (r.exchange?.map fun e => e.input ++ e.output).getD []

/-- The tokens that the items are charged with. -/
def tokens (r : Recording) : Int :=
  (r.exchange?.map fun e => (e.charges.map (·.2)).sum).getD 0

def replyId (r : Recording) : Bytes :=
  r.reply.stringField "id"

/-- How many operations on the store the recording takes. -/
def operations (r : Recording) : Nat :=
  1 + r.changes.length

variable {r : Recording} {replyId : Bytes}

theorem items_changes (r : Recording) : r.changes.filterMap Change.item? = r.items := by
  rw [changes, items]
  cases r.exchange? with
  | none => rfl
  | some e => exact SessionStore.items_changes e

theorem tokens_changes (r : Recording) : (r.changes.map Change.tokens).sum = r.tokens := by
  rw [changes, tokens]
  cases r.exchange? with
  | none => rfl
  | some e => exact SessionStore.tokens_changes e

/-- A recording records no reply but its own. -/
theorem replyId_of_mem (h : replyId ∈ r.changes.filterMap Change.replyId?) :
    replyId = r.replyId := by
  rw [changes, exchange?] at h
  cases hinput : (Item.ofInput r.asked.input).toOption with
  | none =>
    rw [hinput] at h
    exact absurd h List.not_mem_nil
  | some input =>
    rw [hinput] at h
    exact SessionStore.eq_of_mem_replyIds_changes (e := exchangeOf input r.reply) h

theorem replyId_mem {input : List Item} (hinput : Item.ofInput r.asked.input = .ok input)
    (h : r.replyId ≠ []) : r.replyId ∈ r.changes.filterMap Change.replyId? := by
  rw [changes, exchange?, hinput]
  show r.replyId ∈ (exchangeOf input r.reply).changes.filterMap Change.replyId?
  rw [SessionStore.replyIds_changes]
  show r.replyId ∈ if r.replyId.isEmpty then [] else [r.replyId]
  rw [if_neg (mt List.isEmpty_iff.mp h)]
  exact List.mem_singleton_self _

/-- **What a recording does to the store**: it resumes a session and changes it. -/
theorem store_record (r : Recording) (store : SessionStore) :
    (record r.asked r.reply store r.freshId).1 =
      (store.resume r.asked.previousId r.freshId).2.changed
        (store.resume r.asked.previousId r.freshId).1.id r.changes := by
  rw [record, changes, exchange?]
  cases Item.ofInput r.asked.input with
  | error e => rfl
  | ok input => exact SessionStore.record_eq ..

end Recording

/-! ## 3. Operations in any order -/

/-- How far a recording is. -/
inductive Stage where
  | waiting
  /-- It has resumed a session and made so many changes to it. -/
  | within (sessionId : Bytes) (made : Nat)
  deriving DecidableEq

/-- The next operation of a recording: the store and the stage after it. -/
def Recording.advance (r : Recording) (store : SessionStore) : Stage → SessionStore × Stage
  | .waiting =>
    let (session, store) := store.resume r.asked.previousId r.freshId
    (store, .within session.id 0)
  | .within sessionId made =>
    match r.changes[made]? with
    | some c => (store.change sessionId c, .within sessionId (made + 1))
    | none => (store, .within sessionId made)

/-- A store, and how far each of the recordings in it is. -/
structure Shared where
  store : SessionStore
  stages : Nat → Stage

namespace Shared

/-- No recording has begun. -/
def start (store : SessionStore) : Shared := ⟨store, fun _ => .waiting⟩

/-- One recording is at another stage, and the store is another one. -/
def move (s : Shared) (k : Nat) (store : SessionStore) (stage : Stage) : Shared :=
  ⟨store, Function.update s.stages k stage⟩

/-- The next operation of one of the recordings; there is none when it is done. -/
def step (recordings : List Recording) (s : Shared) (k : Nat) : Shared :=
  match recordings[k]? with
  | some r =>
    let (store, stage) := r.advance s.store (s.stages k)
    s.move k store stage
  | none => s

/-- Operations of the recordings in some order. -/
def run (recordings : List Recording) (s : Shared) (order : List Nat) : Shared :=
  order.foldl (step recordings) s

/-- The id of the session that a recording has resumed. -/
def sessionOf (s : Shared) (k : Nat) : Option Bytes :=
  match s.stages k with
  | .waiting => none
  | .within sessionId _ => some sessionId

end Shared

variable {recordings : List Recording} {s : Shared} {k : Nat} {r : Recording}

@[simp] theorem Shared.stages_move_self (s : Shared) (k : Nat) (store : SessionStore)
    (stage : Stage) : (s.move k store stage).stages k = stage :=
  Function.update_self ..

theorem Shared.stages_move (s : Shared) (k : Nat) (store : SessionStore) (stage : Stage) (i : Nat) :
    (s.move k store stage).stages i = if i = k then stage else s.stages i :=
  Function.update_apply ..

/-- What an operation does. -/
inductive Operates (recordings : List Recording) (k : Nat) (s : Shared) : Shared → Prop where
  | resumes {r : Recording} {session : Session} (hr : recordings[k]? = some r)
      (hstage : s.stages k = .waiting) (hfind : s.store.find? r.asked.previousId = some session) :
      Operates recordings k s (s.move k s.store (.within session.id 0))
  | begins {r : Recording} (hr : recordings[k]? = some r) (hstage : s.stages k = .waiting) :
      Operates recordings k s (s.move k
        { s.store with sessions := Table.insert s.store.sessions r.freshId { id := r.freshId } }
        (.within r.freshId 0))
  | changes {r : Recording} {id : Bytes} {made : Nat} {c : Change} (hr : recordings[k]? = some r)
      (hstage : s.stages k = .within id made) (hc : r.changes[made]? = some c) :
      Operates recordings k s (s.move k (s.store.change id c) (.within id (made + 1)))
  | rests : Operates recordings k s s

theorem operates_step (recordings : List Recording) (s : Shared) (k : Nat) :
    Operates recordings k s (s.step recordings k) := by
  rw [Shared.step]
  cases hr : recordings[k]? with
  | none => exact .rests
  | some r =>
    cases hstage : s.stages k with
    | waiting =>
      simp only [Recording.advance]
      rcases s.store.resume_cases r.asked.previousId r.freshId with
        ⟨session, hfind, heq⟩ | ⟨-, heq⟩
      · rw [heq]
        exact .resumes hr hstage hfind
      · rw [heq]
        exact .begins hr hstage
    | within id made =>
      simp only [Recording.advance]
      cases hc : r.changes[made]? with
      | some c => exact .changes hr hstage hc
      | none =>
        have hsame : s.move k s.store (.within id made) = s := by
          rw [Shared.move, ← hstage, Function.update_eq_self]
        simp only [hsame]
        exact .rests

/-! ## 4. One recording -/

theorem step_of_within {id : Bytes} {made : Nat} {c : Change} (hr : recordings[k]? = some r)
    (hstage : s.stages k = .within id made) (hc : r.changes[made]? = some c) :
    s.step recordings k = s.move k (s.store.change id c) (.within id (made + 1)) := by
  simp only [Shared.step, hr, hstage, Recording.advance, hc]

/-- The changes that are left are made one after the other. -/
theorem store_run_changes {id : Bytes} (made left : List Change) (hr : recordings[k]? = some r)
    (hchanges : made ++ left = r.changes) (hstage : s.stages k = .within id made.length) :
    (s.run recordings (List.replicate left.length k)).store = s.store.changed id left := by
  induction left generalizing made s with
  | nil => rfl
  | cons c left ih =>
    have hc : r.changes[made.length]? = some c := by
      rw [← hchanges, List.getElem?_append_right (Nat.le_refl _), Nat.sub_self]
      rfl
    rw [List.length_cons, List.replicate_succ, Shared.run, List.foldl_cons, ← Shared.run,
      step_of_within hr hstage hc]
    refine ih (made ++ [c]) (by rw [← hchanges, List.append_assoc]; rfl) ?_
    rw [List.length_append]
    exact Shared.stages_move_self ..

/-- **A recording that nothing comes in between of** does what `record` does. -/
theorem store_run_alone (hr : recordings[k]? = some r) (hstage : s.stages k = .waiting) :
    (s.run recordings (List.replicate r.operations k)).store =
      (record r.asked r.reply s.store r.freshId).1 := by
  have hfirst : s.step recordings k =
      s.move k (s.store.resume r.asked.previousId r.freshId).2
        (.within (s.store.resume r.asked.previousId r.freshId).1.id 0) := by
    simp only [Shared.step, hr, hstage, Recording.advance]
  have hrest := store_run_changes (s := s.step recordings k) [] r.changes hr rfl
    (by rw [hfirst]; exact Shared.stages_move_self ..)
  rw [Recording.operations, Nat.add_comm, List.replicate_succ, Shared.run, List.foldl_cons,
    ← Shared.run, hrest, hfirst, r.store_record]
  rfl

end RepliesClient

end ChatRelay
