import Mathlib.Algebra.Ring.Int.Defs
import ChatRelay.Conversation.Session
import ChatRelay.Proofs.Tables

/-!
# What a session store holds

What every operation on a session store does to its two tables, as what a lookup finds afterwards.
Sessions are written to in two ways only, an item at the end or a reply as the latest
(`SessionStore.Change`), and a recorded exchange is a list of such changes (`record_eq`).

* `find?_sessions_changed` -- the session that was changed has gained the items and the tokens, and
  every other session is as it was;
* `find?_owners_changed` -- the replies that were recorded belong to that session, and every other
  reply to the session it belonged to;
* `Sound` -- the INVARIANT of a store: each session stands under its own id, and each reply belongs
  to a session that is there.
-/

namespace ChatRelay

namespace SessionStore

/-! ## 1. Changes of a session -/

/-- One write to a session: an item at its end, or a reply as its latest. -/
inductive Change where
  | append (item : Item) (tokens : Int)
  | recordReply (replyId : Bytes)
  deriving DecidableEq

namespace Change

/-- The item that the session gains. -/
def item? : Change → Option Item
  | append item _ => some item
  | recordReply _ => none

/-- The tokens that the session is charged with. -/
def tokens : Change → Int
  | append _ tokens => tokens
  | recordReply _ => 0

/-- The reply that is recorded. -/
def replyId? : Change → Option Bytes
  | append _ _ => none
  | recordReply replyId => some replyId

end Change

/-- The changes that an exchange comes to. -/
def Exchange.changes (e : Exchange) : List Change :=
  e.charges.map (fun c => .append c.1 c.2) ++
    if e.replyId.isEmpty then [] else [.recordReply e.replyId]

/-- The store with one change of a session. -/
def change (store : SessionStore) (sessionId : Bytes) : Change → SessionStore
  | .append item tokens => store.append sessionId item tokens
  | .recordReply replyId => store.recordReply sessionId replyId

/-- The store with changes of a session in turn. -/
def changed (store : SessionStore) (sessionId : Bytes) (changes : List Change) : SessionStore :=
  changes.foldl (fun store c => store.change sessionId c) store

/-- **A recorded exchange is a list of changes.** -/
theorem record_eq (store : SessionStore) (sessionId : Bytes) (e : Exchange) :
    store.record sessionId e = store.changed sessionId e.changes := by
  rw [record, changed, Exchange.changes, List.foldl_append, List.foldl_map]
  by_cases h : e.replyId.isEmpty
  · rw [if_pos h, if_pos h]
    rfl
  · rw [if_neg h, if_neg h]
    rfl

theorem items_changes (e : Exchange) : e.changes.filterMap Change.item? = e.input ++ e.output := by
  have hcharges : (e.charges.map fun c => Change.append c.1 c.2).filterMap Change.item? =
      e.charges.map (·.1) := by
    rw [List.filterMap_map, ← List.filterMap_eq_map]
    rfl
  have hreply :
      (if e.replyId.isEmpty then [] else [Change.recordReply e.replyId]).filterMap Change.item? =
        [] := by
    split <;> rfl
  rw [Exchange.changes, List.filterMap_append, hcharges, hreply, List.append_nil, Exchange.charges,
    List.map_append, List.map_map, List.map_map]
  have hfst (tokens : Int) (items : List Item) :
      items.map ((·.1) ∘ fun item => (item, tokens)) = items :=
    List.map_id items
  rw [hfst, hfst]

theorem tokens_changes (e : Exchange) :
    (e.changes.map Change.tokens).sum = (e.charges.map (·.2)).sum := by
  have hreply :
      ((if e.replyId.isEmpty then [] else [Change.recordReply e.replyId]).map Change.tokens).sum =
        0 := by
    split <;> rfl
  rw [Exchange.changes, List.map_append, List.sum_append, hreply, Int.add_zero, List.map_map]
  rfl

theorem replyIds_changes (e : Exchange) :
    e.changes.filterMap Change.replyId? = if e.replyId.isEmpty then [] else [e.replyId] := by
  have hcharges :
      (e.charges.map fun c => Change.append c.1 c.2).filterMap Change.replyId? = [] := by
    rw [List.filterMap_map]
    exact List.filterMap_eq_nil_iff.mpr fun _ _ => rfl
  rw [Exchange.changes, List.filterMap_append, hcharges, List.nil_append]
  split <;> rfl

/-- An exchange records no reply but its own. -/
theorem eq_of_mem_replyIds_changes {e : Exchange} {replyId : Bytes}
    (h : replyId ∈ e.changes.filterMap Change.replyId?) : replyId = e.replyId := by
  rw [replyIds_changes] at h
  split at h
  · exact absurd h List.not_mem_nil
  · exact List.mem_singleton.mp h

end SessionStore

/-! ## 2. One session -/

namespace Session

open SessionStore (Change)

/-- The session with one change. -/
def change (session : Session) : Change → Session
  | .append item tokens => session.append item tokens
  | .recordReply replyId => { session with lastReplyId := replyId }

/-- The session with changes in turn. -/
def changed (session : Session) (changes : List Change) : Session :=
  changes.foldl change session

variable (session : Session) (c : Change) (changes more : List Change)

theorem changed_append :
    session.changed (changes ++ more) = (session.changed changes).changed more :=
  List.foldl_append

@[simp] theorem id_change : (session.change c).id = session.id := by
  cases c <;> rfl

/-- A session gains the items of the changes in their order. -/
theorem items_changed :
    (session.changed changes).items = session.items ++ changes.filterMap Change.item? := by
  induction changes generalizing session with
  | nil => exact (List.append_nil _).symm
  | cons c changes ih =>
    rw [changed, List.foldl_cons, ← changed, ih]
    cases c with
    | append item tokens => exact List.append_assoc session.items [item] _
    | recordReply replyId => rfl

theorem totalTokens_change (h : Word.toInt64 session.totalTokens = session.totalTokens) :
    (session.change c).totalTokens = Word.toInt64 (session.totalTokens + c.tokens) := by
  cases c with
  | append item tokens => rfl
  | recordReply replyId => exact h.symm.trans (congrArg _ (Int.add_zero _).symm)

/-- A session is charged with the tokens of the changes, in words. -/
theorem totalTokens_changed (h : Word.toInt64 session.totalTokens = session.totalTokens) :
    (session.changed changes).totalTokens =
      Word.toInt64 (session.totalTokens + (changes.map Change.tokens).sum) := by
  induction changes generalizing session with
  | nil => exact h.symm.trans (congrArg _ (Int.add_zero _).symm)
  | cons c changes ih =>
    have hone := totalTokens_change session c h
    rw [changed, List.foldl_cons, ← changed, ih _ (by rw [hone]; exact Int.bmod_bmod), hone,
      List.map_cons, List.sum_cons, ← Int.add_assoc]
    exact Int.bmod_add_bmod

end Session

/-! ## 3. Lookups -/

namespace SessionStore

variable {store : SessionStore} {sessionId replyId freshId : Bytes} {session : Session}

theorem find?_eq_some :
    store.find? replyId = some session ↔
      replyId ≠ [] ∧ ∃ id, Table.find? store.owners replyId = some id ∧
        Table.find? store.sessions id = some session := by
  rw [find?]
  by_cases h : replyId = []
  · rw [if_pos (List.isEmpty_iff.mpr h)]
    exact ⟨nofun, fun hsome => absurd h hsome.1⟩
  · rw [if_neg (mt List.isEmpty_iff.mp h), Option.bind_eq_some_iff]
    exact (and_iff_right h).symm

/-- A change of a session that is not there does nothing. -/
theorem change_of_none (h : Table.find? store.sessions sessionId = none) (c : Change) :
    store.change sessionId c = store := by
  cases c with
  | append item tokens => rw [change, append, h]
  | recordReply replyId => rw [change, recordReply, h]

/-- A change of a session that is there puts the changed one in its place. -/
theorem sessions_change_of_some (h : Table.find? store.sessions sessionId = some session)
    (c : Change) : (store.change sessionId c).sessions =
      Table.insert store.sessions sessionId (session.change c) := by
  cases c with
  | append item tokens =>
    rw [change, append, h]
    rfl
  | recordReply replyId =>
    rw [change, recordReply, h]
    rfl

/-- The sessions after a change. -/
theorem find?_sessions_change (store : SessionStore) (sessionId : Bytes) (c : Change) (id : Bytes) :
    Table.find? (store.change sessionId c).sessions id =
      if id = sessionId then (Table.find? store.sessions id).map (·.change c)
      else Table.find? store.sessions id := by
  cases h : Table.find? store.sessions sessionId with
  | none =>
    rw [change_of_none h]
    split
    · rename_i hid
      rw [hid, h]
      rfl
    · rfl
  | some session =>
    rw [sessions_change_of_some h, Table.find?_insert]
    split
    · rename_i hid
      rw [hid, h]
      rfl
    · rfl

/-- What a reply belongs to after a change. -/
theorem find?_owners_change (store : SessionStore) (sessionId : Bytes) (c : Change)
    (replyId : Bytes) :
    Table.find? (store.change sessionId c).owners replyId =
      if c.replyId? = some replyId ∧ (Table.find? store.sessions sessionId).isSome then
        some sessionId
      else Table.find? store.owners replyId := by
  cases c with
  | append item tokens =>
    have howners : (store.append sessionId item tokens).owners = store.owners := by
      rw [append]
      split <;> rfl
    rw [if_neg fun h => nomatch h.1]
    exact congrArg (Table.find? · replyId) howners
  | recordReply id =>
    rw [change, recordReply]
    cases Table.find? store.sessions sessionId with
    | none => rw [if_neg fun h => nomatch h.2]
    | some session =>
      show Table.find? (Table.insert store.owners id sessionId) replyId = _
      rw [Table.find?_insert]
      by_cases h : replyId = id
      · rw [if_pos h, if_pos ⟨congrArg some h.symm, rfl⟩]
      · rw [if_neg h, if_neg fun heq => h (Option.some.inj heq.1).symm]

/-- A session of the changed store is one of the store before, with the change or without. -/
theorem before_of_find?_change {c : Change} {id : Bytes}
    (h : Table.find? (store.change sessionId c).sessions id = some session) :
    ∃ before, Table.find? store.sessions id = some before ∧
      (session = before.change c ∨ session = before) := by
  rw [find?_sessions_change] at h
  split at h
  · obtain ⟨before, hbefore, rfl⟩ := Option.map_eq_some_iff.mp h
    exact ⟨before, hbefore, Or.inl rfl⟩
  · exact ⟨session, h, Or.inr rfl⟩

/-- A session of a store with a new one is the new one or one of the store before. -/
theorem before_of_find?_insert {id : Bytes}
    (h : Table.find? (Table.insert store.sessions freshId { id := freshId }) id = some session) :
    (id = freshId ∧ session = { id := freshId }) ∨
      Table.find? store.sessions id = some session := by
  rw [Table.find?_insert] at h
  split at h
  · exact Or.inl ⟨‹_›, (Option.some.inj h).symm⟩
  · exact Or.inr h

theorem isSome_sessions_change (store : SessionStore) (sessionId : Bytes) (c : Change)
    (id : Bytes) :
    (Table.find? (store.change sessionId c).sessions id).isSome =
      (Table.find? store.sessions id).isSome := by
  rw [find?_sessions_change]
  split
  · exact Option.isSome_map
  · rfl

/-- **The sessions after changes of one of them.** -/
theorem find?_sessions_changed (store : SessionStore) (sessionId : Bytes) (changes : List Change)
    (id : Bytes) :
    Table.find? (store.changed sessionId changes).sessions id =
      if id = sessionId then (Table.find? store.sessions id).map (·.changed changes)
      else Table.find? store.sessions id := by
  induction changes generalizing store with
  | nil =>
    split
    · exact (Option.map_id_apply).symm
    · rfl
  | cons c changes ih =>
    rw [changed, List.foldl_cons, ← changed, ih, find?_sessions_change]
    by_cases hid : id = sessionId
    · rw [if_pos hid, if_pos hid, if_pos hid, Option.map_map]
      rfl
    · rw [if_neg hid, if_neg hid, if_neg hid]

theorem isSome_sessions_changed (store : SessionStore) (sessionId : Bytes) (changes : List Change)
    (id : Bytes) :
    (Table.find? (store.changed sessionId changes).sessions id).isSome =
      (Table.find? store.sessions id).isSome := by
  rw [find?_sessions_changed]
  split
  · exact Option.isSome_map
  · rfl

/-- **What the replies belong to after changes of a session.** -/
theorem find?_owners_changed (store : SessionStore) (sessionId : Bytes) (changes : List Change)
    (replyId : Bytes) :
    Table.find? (store.changed sessionId changes).owners replyId =
      if replyId ∈ changes.filterMap Change.replyId? ∧
          (Table.find? store.sessions sessionId).isSome then some sessionId
      else Table.find? store.owners replyId := by
  induction changes generalizing store with
  | nil => exact (if_neg fun h => List.not_mem_nil h.1).symm
  | cons c changes ih =>
    rw [changed, List.foldl_cons, ← changed, ih, find?_owners_change, isSome_sessions_change]
    by_cases hthere : (Table.find? store.sessions sessionId).isSome
    · simp only [hthere, and_true, List.mem_filterMap, List.mem_cons, exists_eq_or_imp]
      by_cases hlater : ∃ c ∈ changes, c.replyId? = some replyId
      · rw [if_pos hlater, if_pos (Or.inr hlater)]
      · simp only [hlater, or_false, if_false]
    · simp only [hthere, and_false, if_false, Bool.false_eq_true]

/-! ## 4. Resuming -/

/-- To resume is to find the session of the reply, or to make one. -/
theorem resume_cases (store : SessionStore) (replyId freshId : Bytes) :
    (∃ session, store.find? replyId = some session ∧
      store.resume replyId freshId = (session, store)) ∨
    (store.find? replyId = none ∧ store.resume replyId freshId =
      ({ id := freshId },
        { store with sessions := Table.insert store.sessions freshId { id := freshId } })) := by
  cases h : store.find? replyId with
  | none => exact Or.inr ⟨rfl, by rw [resume, h]⟩
  | some session => exact Or.inl ⟨session, rfl, by rw [resume, h]⟩

theorem owners_resume (store : SessionStore) (replyId freshId : Bytes) :
    (store.resume replyId freshId).2.owners = store.owners := by
  rcases resume_cases store replyId freshId with ⟨session, -, h⟩ | ⟨-, h⟩ <;> rw [h]

/-! ## 5. Sound stores -/

/-- **The invariant of a session store.** -/
structure Sound (store : SessionStore) : Prop where
  /-- Each session stands under its own id. -/
  id_eq : ∀ {id session}, Table.find? store.sessions id = some session → session.id = id
  /-- Each reply belongs to a session that is there. -/
  owned : ∀ {replyId id}, Table.find? store.owners replyId = some id →
    (Table.find? store.sessions id).isSome
  /-- Tokens are counted in words. -/
  isWord : ∀ {id session}, Table.find? store.sessions id = some session →
    Word.toInt64 session.totalTokens = session.totalTokens

theorem sound_empty : Sound {} :=
  ⟨nofun, nofun, nofun⟩

theorem Sound.change (h : store.Sound) (sessionId : Bytes) (c : Change) :
    (store.change sessionId c).Sound := by
  constructor
  · intro id session hfind
    obtain ⟨before, hbefore, rfl | rfl⟩ := before_of_find?_change hfind
    · exact (Session.id_change before c).trans (h.id_eq hbefore)
    · exact h.id_eq hbefore
  · intro replyId id hfind
    rw [isSome_sessions_change]
    rw [find?_owners_change] at hfind
    split at hfind
    · rename_i hrecorded
      cases hfind
      exact hrecorded.2
    · exact h.owned hfind
  · intro id session hfind
    obtain ⟨before, hbefore, rfl | rfl⟩ := before_of_find?_change hfind
    · rw [Session.totalTokens_change before c (h.isWord hbefore)]
      exact Int.bmod_bmod
    · exact h.isWord hbefore

theorem Sound.changed (h : store.Sound) (sessionId : Bytes) (changes : List Change) :
    (store.changed sessionId changes).Sound := by
  induction changes generalizing store with
  | nil => exact h
  | cons c changes ih => exact ih (h.change sessionId c)

/-- A store with a new session is sound, even if it takes the place of one that was there. -/
theorem Sound.insert (h : store.Sound) (id : Bytes) :
    Sound { store with sessions := Table.insert store.sessions id { id } } := by
  constructor
  · intro k session hfind
    obtain ⟨rfl, rfl⟩ | hfind := before_of_find?_insert hfind
    · rfl
    · exact h.id_eq hfind
  · intro replyId k hfind
    show (Table.find? (Table.insert store.sessions id { id }) k).isSome
    rw [Table.find?_insert]
    split
    · rfl
    · exact h.owned hfind
  · intro k session hfind
    obtain ⟨rfl, rfl⟩ | hfind := before_of_find?_insert hfind
    · rfl
    · exact h.isWord hfind

theorem Sound.resume (h : store.Sound) (replyId freshId : Bytes) :
    (store.resume replyId freshId).2.Sound := by
  rcases resume_cases store replyId freshId with ⟨session, -, heq⟩ | ⟨-, heq⟩
  · rw [heq]
    exact h
  · rw [heq]
    exact h.insert freshId

/-- The session that is resumed stands in the store under its id. -/
theorem Sound.find?_resume (h : store.Sound) (replyId freshId : Bytes) :
    Table.find? (store.resume replyId freshId).2.sessions (store.resume replyId freshId).1.id =
      some (store.resume replyId freshId).1 := by
  rcases resume_cases store replyId freshId with ⟨session, hfind, heq⟩ | ⟨-, heq⟩
  · obtain ⟨-, id, -, hsession⟩ := find?_eq_some.mp hfind
    rw [heq, h.id_eq hsession]
    exact hsession
  · rw [heq]
    exact Table.find?_insert_self ..

/-- A session is left alone where the reply belongs to another one, or to none and a new session
    takes no other's place. -/
theorem Sound.resume_apart (h : store.Sound)
    (hsession : Table.find? store.sessions sessionId = some session)
    (howner : Table.find? store.owners replyId ≠ some sessionId)
    (hunused : store.find? replyId = none → Table.find? store.sessions freshId = none) :
    (store.resume replyId freshId).1.id ≠ sessionId ∧
      Table.find? (store.resume replyId freshId).2.sessions sessionId = some session := by
  rcases resume_cases store replyId freshId with ⟨other, hfind, heq⟩ | ⟨hnone, heq⟩
  · obtain ⟨-, id, hid, hother⟩ := find?_eq_some.mp hfind
    rw [heq]
    refine ⟨fun hsame => howner ?_, hsession⟩
    rw [hid, ← hsame, h.id_eq hother]
  · have hne : freshId ≠ sessionId := by
      rintro rfl
      rw [hunused hnone] at hsession
      cases hsession
    rw [heq]
    exact ⟨hne, (Table.find?_insert_of_ne _ _ hne.symm).trans hsession⟩

end SessionStore

end ChatRelay
