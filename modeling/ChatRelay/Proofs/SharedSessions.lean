import Mathlib.Data.List.Nodup
import Mathlib.Algebra.BigOperators.Group.List.Basic
import ChatRelay.Proofs.Recordings

/-!
# Recordings side by side

Several replies are recorded in one session store at the same time, and their operations come in any
order.

* `Sharing` -- the INVARIANT of such a run: each session has gained a shuffle of the changes that
  were made to it so far, and what was recorded so far belongs to the session it was recorded in;
* `recordings_lose_nothing` -- so in the end each session has gained a shuffle of the items of
  exactly the exchanges that resumed it, whatever the order of the operations was.
-/

namespace ChatRelay.RepliesClient

open SessionStore (Change)

variable {recordings : List Recording} {before : SessionStore} {s : Shared} {k : Nat}
  {r : Recording}

/-! ## 1. The invariant -/

/-- The session under an id; one that is not there yet begins empty. -/
def opening (before : SessionStore) (id : Bytes) : Session :=
  (Table.find? before.sessions id).getD { id }

theorem isWord_opening (hbefore : before.Sound) (id : Bytes) :
    Word.toInt64 (opening before id).totalTokens = (opening before id).totalTokens := by
  rw [opening]
  cases h : Table.find? before.sessions id with
  | none => rfl
  | some session => exact hbefore.isWord h

/-- The ids of new sessions and of the replies are new and all different. -/
structure Distinct (recordings : List Recording) (before : SessionStore) : Prop where
  sessions : (recordings.map Recording.freshId).Nodup
  replies : (recordings.map Recording.replyId).Nodup
  newSession : ∀ r ∈ recordings, Table.find? before.sessions r.freshId = none
  newReply : ∀ r ∈ recordings, Table.find? before.owners r.replyId = none
  named : ∀ r ∈ recordings, r.replyId ≠ []

/-- The changes that a recording has made to a session when it is at some stage. -/
def Recording.madeTo (r : Recording) (id : Bytes) : Stage → List Change
  | .waiting => []
  | .within sessionId made => if sessionId = id then r.changes.take made else []

/-- The changes that a recording has made to a session so far. -/
def Shared.madeTo (s : Shared) (recordings : List Recording) (id : Bytes) (k : Nat) :
    List Change :=
  (recordings[k]?.map fun r => r.madeTo id (s.stages k)).getD []

/-- **The invariant** of recordings in a store that was `before` when they began. -/
structure Sharing (recordings : List Recording) (before : SessionStore) (s : Shared) : Prop where
  sound : s.store.Sound
  kept : ∀ {id}, (Table.find? before.sessions id).isSome →
    (Table.find? s.store.sessions id).isSome
  /-- The sessions that were resumed are there. -/
  there : ∀ {k id made}, s.stages k = .within id made → (Table.find? s.store.sessions id).isSome
  /-- The ids of sessions that were not begun yet are free. -/
  unused : ∀ {k r}, recordings[k]? = some r → s.stages k = .waiting →
    Table.find? s.store.sessions r.freshId = none
  /-- Each session has gained the changes that were made to it, in some order. -/
  gained : ∀ {id session}, Table.find? s.store.sessions id = some session →
    ∃ changes, IsShuffle (s.madeTo recordings id) changes ∧
      session = (opening before id).changed changes
  /-- A reply that was recorded belongs to the session it was recorded in. -/
  owned : ∀ {k id replyId}, replyId ∈ (s.madeTo recordings id k).filterMap Change.replyId? →
    Table.find? s.store.owners replyId = some id
  ownedBefore : ∀ {replyId id}, Table.find? before.owners replyId = some id →
    Table.find? s.store.owners replyId = some id

variable {id : Bytes} {made : Nat} {c : Change}

theorem madeTo_move (hr : recordings[k]? = some r) (store : SessionStore) (stage : Stage)
    (id : Bytes) : (s.move k store stage).madeTo recordings id =
      Function.update (s.madeTo recordings id) k (r.madeTo id stage) := by
  funext i
  rw [Function.update_apply, Shared.madeTo, Shared.stages_move]
  by_cases hi : i = k
  · rw [if_pos hi, if_pos hi, hi, hr]
    rfl
  · rw [if_neg hi, if_neg hi]
    rfl

/-- Where nothing more was made, nothing has changed. -/
theorem madeTo_move_of_eq (hr : recordings[k]? = some r) (store : SessionStore) {stage : Stage}
    (hstage : r.madeTo id stage = r.madeTo id (s.stages k)) :
    (s.move k store stage).madeTo recordings id = s.madeTo recordings id := by
  have hnow : s.madeTo recordings id k = r.madeTo id (s.stages k) := by
    rw [Shared.madeTo, hr]
    rfl
  rw [madeTo_move hr, hstage, ← hnow, Function.update_eq_self]

/-- To resume a session is not a change of it. -/
theorem madeTo_resumed (hr : recordings[k]? = some r) (hstage : s.stages k = .waiting)
    (store : SessionStore) (sessionId id : Bytes) :
    (s.move k store (.within sessionId 0)).madeTo recordings id = s.madeTo recordings id := by
  refine madeTo_move_of_eq hr store ?_
  rw [hstage]
  exact ite_self []

theorem madeTo_changed (hr : recordings[k]? = some r) (hstage : s.stages k = .within id made)
    (hc : r.changes[made]? = some c) (store : SessionStore) :
    (s.move k store (.within id (made + 1))).madeTo recordings id =
      Function.update (s.madeTo recordings id) k (s.madeTo recordings id k ++ [c]) := by
  have hnow : s.madeTo recordings id k = r.changes.take made := by
    rw [Shared.madeTo, hr, hstage]
    exact if_pos rfl
  rw [madeTo_move hr, hnow, Recording.madeTo, if_pos rfl, List.take_add_one, hc]
  rfl

theorem madeTo_changed_of_ne (hr : recordings[k]? = some r) (hstage : s.stages k = .within id made)
    (store : SessionStore) {other : Bytes} (hother : other ≠ id) :
    (s.move k store (.within id (made + 1))).madeTo recordings other =
      s.madeTo recordings other := by
  refine madeTo_move_of_eq hr store ?_
  rw [hstage, Recording.madeTo, Recording.madeTo, if_neg hother.symm, if_neg hother.symm]

/-- The changes after one more are those before and this one. -/
theorem mem_madeTo_changed (hr : recordings[k]? = some r) (hstage : s.stages k = .within id made)
    (hc : r.changes[made]? = some c) (store : SessionStore) {other : Bytes} {i : Nat} {d : Change}
    (h : d ∈ (s.move k store (.within id (made + 1))).madeTo recordings other i) :
    d ∈ s.madeTo recordings other i ∨ (other = id ∧ d = c) := by
  by_cases hother : other = id
  · subst hother
    rw [madeTo_changed hr hstage hc, Function.update_apply] at h
    split at h
    · rename_i hik
      rw [hik]
      exact (List.mem_append.mp h).imp_right fun hlast => ⟨rfl, List.mem_singleton.mp hlast⟩
    · exact .inl h
  · rw [madeTo_changed_of_ne hr hstage _ hother] at h
    exact .inl h

/-- A change that was made to a session was made by a recording that is in it. -/
theorem exists_of_mem_madeTo {i : Nat} (h : c ∈ s.madeTo recordings id i) :
    ∃ r made, recordings[i]? = some r ∧ s.stages i = .within id made ∧ c ∈ r.changes := by
  rw [Shared.madeTo] at h
  cases hr : recordings[i]? with
  | none =>
    rw [hr] at h
    exact absurd h List.not_mem_nil
  | some r =>
    rw [hr] at h
    replace h : c ∈ r.madeTo id (s.stages i) := h
    cases hstage : s.stages i with
    | waiting =>
      rw [hstage] at h
      exact absurd h List.not_mem_nil
    | within sessionId made =>
      rw [hstage, Recording.madeTo] at h
      by_cases hid : sessionId = id
      · rw [if_pos hid] at h
        exact ⟨r, made, rfl, by rw [hid], List.mem_of_mem_take h⟩
      · rw [if_neg hid] at h
        exact absurd h List.not_mem_nil

/-- Recordings with one such name are the same where the names are all different. -/
theorem eq_of_nodup {name : Recording → Bytes} (h : (recordings.map name).Nodup) {i k : Nat}
    {r r' : Recording} (hr : recordings[i]? = some r) (hr' : recordings[k]? = some r')
    (heq : name r = name r') : i = k := by
  have hlt : i < (recordings.map name).length := by
    rw [List.length_map]
    exact (List.getElem?_eq_some_iff.mp hr).1
  refine (List.getElem?_inj hlt h).mp ?_
  rw [List.getElem?_map, List.getElem?_map, hr, hr']
  exact congrArg some heq

/-! ## 2. Operations -/

section

variable (h : Sharing recordings before s)

include h

/-- Nothing was done to a session that is not there. -/
theorem Sharing.madeTo_eq_nil (hnone : Table.find? s.store.sessions id = none) :
    s.madeTo recordings id = fun _ => [] := by
  funext k
  refine List.eq_nil_iff_forall_not_mem.mpr fun c hc => ?_
  obtain ⟨r, made, -, hstage, -⟩ := exists_of_mem_madeTo hc
  have hthere := h.there hstage
  rw [hnone] at hthere
  cases hthere

theorem Sharing.resumes (hr : recordings[k]? = some r) (hstage : s.stages k = .waiting)
    (hthere : (Table.find? s.store.sessions id).isSome) :
    Sharing recordings before (s.move k s.store (.within id 0)) := by
  refine ⟨h.sound, h.kept, ?_, ?_, ?_, ?_, h.ownedBefore⟩
  · intro i id' made hi
    rw [Shared.stages_move] at hi
    split at hi
    · cases hi
      exact hthere
    · exact h.there hi
  · intro i r hr hi
    rw [Shared.stages_move] at hi
    split at hi
    · cases hi
    · exact h.unused hr hi
  · intro id' session hfind
    rw [madeTo_resumed hr hstage]
    exact h.gained hfind
  · intro i id' replyId hmem
    rw [madeTo_resumed hr hstage] at hmem
    exact h.owned hmem

theorem Sharing.begins (hnew : Distinct recordings before) (hr : recordings[k]? = some r)
    (hstage : s.stages k = .waiting) :
    Sharing recordings before (s.move k
      { s.store with sessions := Table.insert s.store.sessions r.freshId { id := r.freshId } }
      (.within r.freshId 0)) := by
  have hfree := h.unused hr hstage
  have hgrows : ∀ {id}, (Table.find? s.store.sessions id).isSome →
      (Table.find? (Table.insert s.store.sessions r.freshId { id := r.freshId }) id).isSome := by
    intro id hid
    rw [Table.find?_insert]
    split
    · rfl
    · exact hid
  refine ⟨h.sound.insert r.freshId, fun hid => hgrows (h.kept hid), ?_, ?_, ?_, ?_,
    h.ownedBefore⟩
  · intro i id made hi
    rw [Shared.stages_move] at hi
    split at hi
    · cases hi
      exact Option.isSome_of_eq_some (Table.find?_insert_self ..)
    · exact hgrows (h.there hi)
  · intro i r' hr' hi
    rw [Shared.stages_move] at hi
    split at hi
    · cases hi
    · rename_i hik
      have hne : r'.freshId ≠ r.freshId := fun heq => hik (eq_of_nodup hnew.sessions hr' hr heq)
      exact (Table.find?_insert_of_ne _ _ hne).trans (h.unused hr' hi)
  · intro id session hfind
    rw [madeTo_resumed hr hstage]
    obtain ⟨rfl, rfl⟩ | hfind := SessionStore.before_of_find?_insert hfind
    · refine ⟨[], ?_, ?_⟩
      · rw [h.madeTo_eq_nil hfree]
        exact IsShuffle.nil
      · rw [opening, hnew.newSession r (List.mem_of_getElem? hr)]
        rfl
    · exact h.gained hfind
  · intro i id' replyId hmem
    rw [madeTo_resumed hr hstage] at hmem
    exact h.owned hmem

theorem Sharing.changes (hnew : Distinct recordings before) (hr : recordings[k]? = some r)
    (hstage : s.stages k = .within id made) (hc : r.changes[made]? = some c) :
    Sharing recordings before (s.move k (s.store.change id c) (.within id (made + 1))) := by
  have hthere := h.there hstage
  -- a reply that this change records is the one of this recording
  have hreply : ∀ {replyId}, c.replyId? = some replyId → replyId = r.replyId := fun heq =>
    Recording.replyId_of_mem (List.mem_filterMap.mpr ⟨c, List.mem_of_getElem? hc, heq⟩)
  refine ⟨h.sound.change id c, fun hid => ?_, ?_, ?_, ?_, ?_, ?_⟩
  · rw [Shared.move, SessionStore.isSome_sessions_change]
    exact h.kept hid
  · intro i id' made' hi
    rw [Shared.move, SessionStore.isSome_sessions_change]
    rw [Shared.stages_move] at hi
    split at hi
    · cases hi
      exact hthere
    · exact h.there hi
  · intro i r' hr' hi
    rw [Shared.stages_move] at hi
    split at hi
    · cases hi
    · have hnone := h.unused hr' hi
      rw [← Option.isNone_iff_eq_none, ← Option.not_isSome] at hnone ⊢
      rw [Shared.move, SessionStore.isSome_sessions_change]
      exact hnone
  · intro id' session hfind
    rw [Shared.move, SessionStore.find?_sessions_change] at hfind
    by_cases hid : id' = id
    · rw [if_pos hid] at hfind
      subst hid
      obtain ⟨earlier, hearlier, rfl⟩ := Option.map_eq_some_iff.mp hfind
      obtain ⟨changes, hshuffle, rfl⟩ := h.gained hearlier
      refine ⟨changes ++ [c], ?_, (Session.changed_append _ changes [c]).symm⟩
      rw [madeTo_changed hr hstage hc]
      exact hshuffle.snoc k c
    · rw [if_neg hid] at hfind
      rw [madeTo_changed_of_ne hr hstage _ hid]
      exact h.gained hfind
  · intro i id' replyId hmem
    obtain ⟨d, hd, hdreply⟩ := List.mem_filterMap.mp hmem
    rw [Shared.move, SessionStore.find?_owners_change]
    obtain hd | ⟨rfl, rfl⟩ := mem_madeTo_changed hr hstage hc _ hd
    · by_cases hrecorded : c.replyId? = some replyId
      · -- only this recording records that reply, so it is this session
        obtain ⟨r', made', hr', hstage', hd'⟩ := exists_of_mem_madeTo hd
        have hreply' := Recording.replyId_of_mem (List.mem_filterMap.mpr ⟨d, hd', hdreply⟩)
        obtain rfl : i = k :=
          eq_of_nodup hnew.replies hr' hr (hreply'.symm.trans (hreply hrecorded))
        rw [hstage] at hstage'
        cases hstage'
        exact if_pos ⟨hrecorded, hthere⟩
      · rw [if_neg fun hboth => hrecorded hboth.1]
        exact h.owned (List.mem_filterMap.mpr ⟨d, hd, hdreply⟩)
    · exact if_pos ⟨hdreply, hthere⟩
  · intro replyId id' hbefore
    rw [Shared.move, SessionStore.find?_owners_change, if_neg]
    · exact h.ownedBefore hbefore
    · intro hrecorded
      have hnone := hnew.newReply r (List.mem_of_getElem? hr)
      rw [← hreply hrecorded.1, hbefore] at hnone
      cases hnone

end

/-- **The invariant is kept by every operation.** -/
theorem Sharing.step (h : Sharing recordings before s) (hnew : Distinct recordings before)
    (k : Nat) : Sharing recordings before (s.step recordings k) := by
  have ho := operates_step recordings s k
  generalize s.step recordings k = t at ho
  cases ho with
  | resumes hr hstage hfind =>
    obtain ⟨-, id, -, hsession⟩ := SessionStore.find?_eq_some.mp hfind
    rw [h.sound.id_eq hsession]
    exact h.resumes hr hstage (Option.isSome_of_eq_some hsession)
  | begins hr hstage => exact h.begins hnew hr hstage
  | changes hr hstage hc => exact h.changes hnew hr hstage hc
  | rests => exact h

theorem sharing_start (hbefore : before.Sound) (hnew : Distinct recordings before) :
    Sharing recordings before (.start before) := by
  have hnone (id : Bytes) : (Shared.start before).madeTo recordings id = fun _ => [] := by
    funext k
    rw [Shared.madeTo]
    cases recordings[k]? <;> rfl
  refine ⟨hbefore, id, nofun, fun hr _ => hnew.newSession _ (List.mem_of_getElem? hr), ?_, ?_, id⟩
  · intro id session hfind
    refine ⟨[], ?_, ?_⟩
    · rw [hnone]
      exact IsShuffle.nil
    · rw [opening, show Table.find? before.sessions id = some session from hfind]
      rfl
  · intro k id replyId hmem
    rw [hnone] at hmem
    exact absurd hmem List.not_mem_nil

/-- **The invariant holds after operations in any order.** -/
theorem Sharing.run (h : Sharing recordings before s) (hnew : Distinct recordings before)
    (order : List Nat) : Sharing recordings before (s.run recordings order) := by
  induction order generalizing s with
  | nil => exact h
  | cons k order ih => exact ih (h.step hnew k)

/-! ## 3. All recordings done -/

/-- How many operations a recording has left at some stage. -/
def Recording.left (r : Recording) : Stage → Nat
  | .waiting => r.operations
  | .within _ made => r.changes.length - made

theorem Recording.left_advance (r : Recording) (store : SessionStore) (stage : Stage) :
    r.left (r.advance store stage).2 = r.left stage - 1 := by
  cases stage with
  | waiting =>
    show r.changes.length - 0 = 1 + r.changes.length - 1
    omega
  | within id made =>
    rw [advance]
    cases hc : r.changes[made]? with
    | some c =>
      show r.changes.length - (made + 1) = r.changes.length - made - 1
      omega
    | none =>
      have hlen := List.getElem?_eq_none_iff.mp hc
      show r.changes.length - made = r.changes.length - made - 1
      omega

/-- A recording goes on at its turns and at no others. -/
theorem left_run (hr : recordings[k]? = some r) (order : List Nat) (s : Shared) :
    r.left ((s.run recordings order).stages k) = r.left (s.stages k) - order.count k := by
  induction order generalizing s with
  | nil => rfl
  | cons i order ih =>
    have hone : r.left ((s.step recordings i).stages k) =
        r.left (s.stages k) - if i = k then 1 else 0 := by
      rw [Shared.step]
      by_cases hi : i = k
      · rw [if_pos hi, hi, hr]
        show r.left ((s.move k _ _).stages k) = _
        rw [Shared.stages_move_self]
        exact r.left_advance _ _
      · rw [if_neg hi]
        cases recordings[i]? with
        | none => rfl
        | some r' =>
          show r.left ((s.move i _ _).stages k) = _
          rw [Shared.stages_move, if_neg (Ne.symm hi)]
          rfl
    rw [Shared.run, List.foldl_cons, ← Shared.run, ih, hone, List.count_cons]
    simp only [beq_iff_eq]
    omega

/-- The items of a recording, if that session is the one it has resumed. -/
def Shared.itemsTo (s : Shared) (recordings : List Recording) (id : Bytes) (k : Nat) : List Item :=
  if s.sessionOf k = some id then (recordings[k]?.map Recording.items).getD [] else []

/-- The tokens of a recording, if that session is the one it has resumed. -/
def Shared.tokensTo (s : Shared) (recordings : List Recording) (id : Bytes) (k : Nat) : Int :=
  if s.sessionOf k = some id then (recordings[k]?.map Recording.tokens).getD 0 else 0

/-- Each recording has made all its changes to the session that it resumed. -/
def Shared.Done (s : Shared) (recordings : List Recording) : Prop :=
  ∀ {k r}, recordings[k]? = some r →
    ∃ id made, s.stages k = .within id made ∧ r.changes.take made = r.changes

/-- Recordings that had all their turns are done. -/
theorem done_of_turns {order : List Nat}
    (horder : ∀ k (hk : k < recordings.length), recordings[k].operations ≤ order.count k) :
    ((Shared.start before).run recordings order).Done recordings := by
  intro k r hr
  obtain ⟨hk, rfl⟩ := List.getElem?_eq_some_iff.mp hr
  have hleft : recordings[k].left (((Shared.start before).run recordings order).stages k) = 0 :=
    (left_run hr order (Shared.start before)).trans (Nat.sub_eq_zero_of_le (horder k hk))
  cases hstage : ((Shared.start before).run recordings order).stages k with
  | waiting =>
    rw [hstage, Recording.left, Recording.operations] at hleft
    omega
  | within id made =>
    rw [hstage] at hleft
    exact ⟨id, made, rfl, List.take_of_length_le (Nat.le_of_sub_eq_zero hleft)⟩

theorem Shared.Done.madeTo (h : s.Done recordings) (id : Bytes) (k : Nat) :
    s.madeTo recordings id k =
      if s.sessionOf k = some id then (recordings[k]?.map Recording.changes).getD [] else [] := by
  rw [Shared.madeTo]
  cases hr : recordings[k]? with
  | none => exact (ite_self []).symm
  | some r =>
    obtain ⟨sessionId, made, hstage, hall⟩ := h hr
    show r.madeTo id (s.stages k) = if s.sessionOf k = some id then r.changes else []
    rw [Shared.sessionOf, hstage, Recording.madeTo, hall]
    by_cases hid : sessionId = id
    · rw [if_pos hid, if_pos (congrArg some hid)]
    · rw [if_neg hid, if_neg fun heq => hid (Option.some.inj heq)]

theorem Shared.Done.items_madeTo (h : s.Done recordings) (id : Bytes) (k : Nat) :
    (s.madeTo recordings id k).filterMap Change.item? = s.itemsTo recordings id k := by
  rw [h.madeTo, Shared.itemsTo]
  split
  · cases recordings[k]? with
    | none => rfl
    | some r => exact r.items_changes
  · rfl

theorem Shared.Done.tokens_madeTo (h : s.Done recordings) (id : Bytes) (k : Nat) :
    ((s.madeTo recordings id k).map Change.tokens).sum = s.tokensTo recordings id k := by
  rw [h.madeTo, Shared.tokensTo]
  split
  · cases recordings[k]? with
    | none => rfl
    | some r => exact r.tokens_changes
  · rfl

/-- The sum of what the elements of a shuffle count is the sum of what the lists count. -/
theorem sum_of_shuffle {lists : Nat → List Change} {out : List Change} (h : IsShuffle lists out)
    {n : Nat} (hlists : ∀ k, n ≤ k → lists k = []) :
    (out.map Change.tokens).sum =
      ((List.range n).map fun k => ((lists k).map Change.tokens).sum).sum := by
  rw [((h.perm hlists).map Change.tokens).sum_eq, List.map_flatMap, List.flatMap_def,
    List.sum_flatten, List.map_map]
  rfl

/-- **Recordings side by side lose nothing.** In a sound store, under new ids, and in whatever order
    the recordings take their turns: each has resumed a session; each session has gained a shuffle
    of the items of exactly the recordings that resumed it, and is charged with their tokens; and
    each reply belongs to the session that its recording resumed. What was there before is still
    there. -/
theorem recordings_lose_nothing {recordings : List Recording} {before : SessionStore}
    {order : List Nat} (hbefore : before.Sound) (hnew : Distinct recordings before)
    (horder : ∀ k (hk : k < recordings.length), recordings[k].operations ≤ order.count k) :
    let after := (Shared.start before).run recordings order
    after.store.Sound ∧
    (∀ k < recordings.length, ∃ id, after.sessionOf k = some id ∧
      (Table.find? after.store.sessions id).isSome) ∧
    (∀ id session, Table.find? after.store.sessions id = some session →
      ∃ gained, session.items = (opening before id).items ++ gained ∧
        IsShuffle (after.itemsTo recordings id) gained ∧
        session.totalTokens = Word.toInt64 ((opening before id).totalTokens +
          ((List.range recordings.length).map (after.tokensTo recordings id)).sum)) ∧
    (∀ k r input, recordings[k]? = some r → Item.ofInput r.asked.input = .ok input →
      ∃ session, after.store.find? r.replyId = some session ∧
        after.sessionOf k = some session.id) ∧
    (∀ id, (Table.find? before.sessions id).isSome → (Table.find? after.store.sessions id).isSome) ∧
    ∀ replyId id, Table.find? before.owners replyId = some id →
      Table.find? after.store.owners replyId = some id := by
  intro after
  have h : Sharing recordings before after := (sharing_start hbefore hnew).run hnew order
  have hdone : after.Done recordings := done_of_turns horder
  refine ⟨h.sound, ?_, ?_, ?_, fun _ => h.kept, fun _ _ => h.ownedBefore⟩
  · intro k hk
    obtain ⟨id, made, hstage, -⟩ := hdone (List.getElem?_eq_getElem hk)
    exact ⟨id, by rw [Shared.sessionOf, hstage], h.there hstage⟩
  · intro id session hfind
    obtain ⟨changes, hshuffle, rfl⟩ := h.gained hfind
    have hitems := hshuffle.filterMap Change.item?
    have htokens := sum_of_shuffle hshuffle fun k hk => by
      rw [Shared.madeTo, List.getElem?_eq_none hk]
      rfl
    simp only [hdone.items_madeTo] at hitems
    simp only [hdone.tokens_madeTo] at htokens
    refine ⟨changes.filterMap Change.item?, Session.items_changed .., hitems, ?_⟩
    rw [Session.totalTokens_changed _ _ (isWord_opening hbefore id), htokens]
  · intro k r input hr hinput
    obtain ⟨id, made, hstage, hall⟩ := hdone hr
    have hsession : after.sessionOf k = some id := by rw [Shared.sessionOf, hstage]
    have hnamed := hnew.named r (List.mem_of_getElem? hr)
    obtain ⟨session, hfind⟩ := Option.isSome_iff_exists.mp (h.there hstage)
    have howned : Table.find? after.store.owners r.replyId = some id := by
      refine h.owned (k := k) ?_
      rw [hdone.madeTo, if_pos hsession, hr]
      exact Recording.replyId_mem hinput hnamed
    refine ⟨session, SessionStore.find?_eq_some.mpr ⟨hnamed, id, howned, hfind⟩, ?_⟩
    rw [hsession, h.sound.id_eq hfind]

/-- Two replies of one conversation, recorded while a third reply begins another. -/
theorem recordings_lose_nothing_two_at_once :
    let replyOf (id text : Bytes) : Json := .object [("id", .str id),
      ("output", .arr [.object [("type", .str "text"), ("content", .str text)]]),
      ("usage", .object [("input_tokens", .int 2), ("output_tokens", .int 3)])]
    let before := (({} : SessionStore).resume [] "s").2.changed "s"
      [.append (Item.ofText "old") 1, .recordReply "r"]
    let recordings : List Recording :=
      [⟨{ previousId := "r", input := .str "a" }, replyOf "ra" "A", "s1"⟩,
        ⟨{ previousId := "r", input := .str "b" }, replyOf "rb" "B", "s2"⟩,
        ⟨{ input := .str "c" }, replyOf "rc" "C", "s3"⟩]
    let order := [0, 2, 1, 1, 2, 0, 0, 1, 1, 2, 0, 2]
    let after := (Shared.start before).run recordings order
    ∃ session gained, Table.find? after.store.sessions "s" = some session ∧
      session.items = Item.ofText "old" :: gained ∧
      IsShuffle (after.itemsTo recordings "s") gained ∧
      gained.map (·.content) = ["b", "a", "A", "B"].map (Json.str ∘ Bytes.ofString) ∧
      session.totalTokens = 11 ∧ after.sessionOf 2 = some (Bytes.ofString "s3") := by
  intro replyOf before recordings order after
  have hbefore : before.Sound := (SessionStore.sound_empty.resume [] "s").changed "s" _
  have hnew : Distinct recordings before :=
    ⟨by decide +kernel, by decide +kernel, by decide +kernel, by decide +kernel, by decide +kernel⟩
  have hturns : ∀ k (hk : k < recordings.length), recordings[k].operations ≤ order.count k := by
    decide +kernel
  have hafter : (Shared.start before).run recordings order = after := rfl
  have hgained := (recordings_lose_nothing hbefore hnew hturns).2.2.1
  rw [hafter] at hgained
  have hread : (Table.find? after.store.sessions "s").map
      (fun session => (session.items.tail.map (·.content), session.totalTokens)) =
      some (["b", "a", "A", "B"].map (Json.str ∘ Bytes.ofString), 11) := by
    decide +kernel
  obtain ⟨session, hfind, hsession⟩ := Option.map_eq_some_iff.mp hread
  obtain ⟨hcontents, htokens⟩ := Prod.mk.inj hsession
  obtain ⟨gained, hitems, hshuffle, -⟩ := hgained _ session hfind
  replace hitems : session.items = Item.ofText "old" :: gained := hitems
  rw [hitems] at hcontents
  exact ⟨session, gained, hfind, hitems, hshuffle, hcontents, htokens, by decide +kernel⟩

end ChatRelay.RepliesClient
