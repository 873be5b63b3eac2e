import ChatRelay.Proofs.Sessions

/-!
# Histories of a session store

A session store is used by calls in any order (`Call`): a session is asked for, written to or read,
and all of them are dropped at once. From an empty store, whatever the calls:

* `Runs.sound` -- the store is sound: each session stands under its own id, and each reply belongs
  to a session that is there;
* `Runs.created` -- each session is what was written to it since the call that created it;
* `Runs.find?_kept` -- from its recording on a reply belongs to its session, until the reply is
  recorded for another one or everything is dropped;
* `Runs.history_prefix` -- and all that while the history of the reply only grows at its end.
-/

namespace ChatRelay.SessionStore

/-! ## 1. Calls -/

/-- One call of a session store. -/
inductive Call where
  /-- Asks for the session that continues a reply; a new one goes under the fresh id. -/
  | resume (replyId freshId : Bytes)
  /-- Writes to a session. -/
  | change (sessionId : Bytes) (c : Change)
  /-- Asks for the items of a conversation. -/
  | history (replyId : Bytes)
  /-- Drops all sessions. -/
  | clear

/-- The store after a call. -/
def after (store : SessionStore) : Call → SessionStore
  | .resume replyId freshId => (store.resume replyId freshId).2
  | .change sessionId c => store.change sessionId c
  | .history _ => store
  | .clear => {}

namespace Call

/-- Whether the session that the call creates, if it does, takes no other's place. -/
def Fresh (store : SessionStore) : Call → Prop
  | resume replyId freshId =>
    store.find? replyId = none → Table.find? store.sessions freshId = none
  | change _ _ | history _ | clear => True

instance (store : SessionStore) : DecidablePred (Fresh store)
  | resume replyId freshId => inferInstanceAs (Decidable
      (store.find? replyId = none → Table.find? store.sessions freshId = none))
  | change _ _ | history _ | clear => isTrue trivial

/-- The write to a session that the call is, if it is one. -/
def changeOf? (sessionId : Bytes) : Call → Option Change
  | change id c => if id = sessionId then some c else none
  | resume _ _ | history _ | clear => none

/-- Whether a reply that belongs to a session still does after the call: it neither drops everything
    nor records the reply for another session. -/
def LeavesOwner (replyId sessionId : Bytes) : Call → Prop
  | change id (.recordReply recorded) => recorded = replyId → id = sessionId
  | clear => False
  | change _ (.append _ _) | resume _ _ | history _ => True

instance (replyId sessionId : Bytes) : DecidablePred (LeavesOwner replyId sessionId)
  | change id (.recordReply recorded) =>
    inferInstanceAs (Decidable (recorded = replyId → id = sessionId))
  | clear => isFalse not_false
  | change _ (.append _ _) | resume _ _ | history _ => isTrue trivial

end Call

/-- The writes to a session among some calls. -/
def changesTo (sessionId : Bytes) (calls : List Call) : List Change :=
  calls.filterMap (Call.changeOf? sessionId)

/-- The stores that calls in turn lead to, where new sessions get fresh ids. -/
inductive Runs (start : SessionStore) : List Call → SessionStore → Prop where
  | nil : Runs start [] start
  | call {calls : List Call} {store : SessionStore} (before : Runs start calls store) {c : Call}
      (fresh : c.Fresh store) : Runs start (calls ++ [c]) (store.after c)

variable {start store next last : SessionStore} {calls later more : List Call} {c : Call}
  {sessionId replyId freshId id : Bytes} {session : Session}

theorem Runs.append (h : Runs start calls store) (hlater : Runs store later next) :
    Runs start (calls ++ later) next := by
  induction hlater with
  | nil =>
    rw [List.append_nil]
    exact h
  | call _ fresh ih =>
    rw [← List.append_assoc]
    exact ih.call fresh

/-! ## 2. Sound stores -/

theorem Sound.after (h : store.Sound) (c : Call) : (store.after c).Sound := by
  cases c with
  | resume replyId freshId => exact h.resume replyId freshId
  | change sessionId c => exact h.change sessionId c
  | history replyId => exact h
  | clear => exact sound_empty

/-- **Calls keep a store sound.** -/
theorem Runs.sound (h : Runs start calls store) (hstart : start.Sound) : store.Sound := by
  induction h with
  | nil => exact hstart
  | call _ _ ih => exact ih.after _

/-! ## 3. What a session holds -/

/-- A session as it was created by one of the calls and written to by the later ones. -/
structure CreatedBy (calls : List Call) (id : Bytes) (session : Session)
    (before later : List Call) (replyId : Bytes) : Prop where
  calls_eq : calls = before ++ .resume replyId id :: later
  /-- The call created a session: none belonged to the reply. -/
  created : ∃ earlier, Runs {} before earlier ∧ earlier.find? replyId = none
  /-- The session has not been dropped since. -/
  kept : .clear ∉ later
  session_eq : session = Session.changed { id } (changesTo id later)

theorem changesTo_concat (id : Bytes) (calls : List Call) (c : Call) :
    changesTo id (calls ++ [c]) = changesTo id calls ++ (c.changeOf? id).toList := by
  rw [changesTo, List.filterMap_append]
  rfl

/-- One more call that leaves the sessions in place. -/
theorem CreatedBy.call {before : List Call} (h : CreatedBy calls id session before later replyId)
    (hc : c ≠ .clear) :
    CreatedBy (calls ++ [c]) id (session.changed (c.changeOf? id).toList) before (later ++ [c])
      replyId where
  calls_eq := by rw [h.calls_eq, List.append_assoc, List.cons_append]
  created := h.created
  kept hmem := by
    rcases List.mem_append.mp hmem with hmem | hmem
    · exact h.kept hmem
    · exact hc (List.mem_singleton.mp hmem).symm
  session_eq := by rw [changesTo_concat, Session.changed_append, ← h.session_eq]

/-- **A session is what was written to it since its creation.** -/
theorem Runs.created (h : Runs {} calls store)
    (hfind : Table.find? store.sessions id = some session) :
    ∃ before later replyId, CreatedBy calls id session before later replyId := by
  induction h generalizing session with
  | nil => cases hfind
  | @call calls store hruns c fresh ih =>
    -- a call that does not write to the session leaves it as it was
    have hsame (hc : c ≠ .clear) (hnone : c.changeOf? id = none)
        (hfind : Table.find? store.sessions id = some session) :
        ∃ before later replyId, CreatedBy (calls ++ [c]) id session before later replyId := by
      obtain ⟨before, later, replyId, hcreated⟩ := ih hfind
      have hcall := hcreated.call hc
      rw [hnone] at hcall
      exact ⟨before, later ++ [c], replyId, hcall⟩
    cases c with
    | resume replyId freshId =>
      rcases resume_cases store replyId freshId with ⟨_, -, heq⟩ | ⟨hnone, heq⟩
      · rw [after, heq] at hfind
        exact hsame Call.noConfusion rfl hfind
      · rw [after, heq] at hfind
        rcases before_of_find?_insert hfind with ⟨rfl, rfl⟩ | hfind
        · exact ⟨calls, [], replyId, rfl, ⟨store, hruns, hnone⟩, List.not_mem_nil, rfl⟩
        · exact hsame Call.noConfusion rfl hfind
    | change sessionId c =>
      rw [after, find?_sessions_change] at hfind
      split at hfind
      · rename_i hid
        obtain ⟨earlier, hearlier, rfl⟩ := Option.map_eq_some_iff.mp hfind
        obtain ⟨before, later, replyId, hcreated⟩ := ih hearlier
        have hcall := hcreated.call (c := .change sessionId c) Call.noConfusion
        rw [Call.changeOf?, if_pos hid.symm] at hcall
        exact ⟨before, _, replyId, hcall⟩
      · rename_i hid
        exact hsame Call.noConfusion (if_neg (Ne.symm hid)) hfind
    | history replyId => exact hsame Call.noConfusion rfl hfind
    | clear => cases hfind

/-! ## 4. Replies keep their sessions -/

/-- A call leaves a session in place, with what was written to it, unless everything is dropped. -/
theorem find?_sessions_after (hfind : Table.find? store.sessions id = some session)
    (hc : c ≠ .clear) (hfresh : c.Fresh store) :
    Table.find? (store.after c).sessions id =
      some (session.changed (c.changeOf? id).toList) := by
  cases c with
  | resume replyId freshId =>
    rcases resume_cases store replyId freshId with ⟨_, -, heq⟩ | ⟨hnone, heq⟩
    · rw [after, heq]
      exact hfind
    · rw [after, heq]
      have hne : id ≠ freshId := by
        rintro rfl
        rw [hfresh hnone] at hfind
        cases hfind
      exact (Table.find?_insert_of_ne _ _ hne).trans hfind
  | change sessionId c =>
    rw [after, find?_sessions_change, hfind, Call.changeOf?]
    by_cases hid : id = sessionId
    · rw [if_pos hid, if_pos hid.symm]
      rfl
    · rw [if_neg hid, if_neg (Ne.symm hid)]
      rfl
  | history replyId => exact hfind
  | clear => exact absurd rfl hc

/-- A reply and its session are left together. -/
theorem find?_owners_after (howner : Table.find? store.owners replyId = some sessionId)
    (hc : c.LeavesOwner replyId sessionId) :
    Table.find? (store.after c).owners replyId = some sessionId := by
  cases c with
  | resume resumed freshId =>
    rw [after, owners_resume]
    exact howner
  | change id c =>
    rw [after, find?_owners_change]
    split
    · rename_i hrecorded
      cases c with
      | append item tokens => cases hrecorded.1
      | recordReply recorded => rw [hc (Option.some.inj hrecorded.1)]
    · exact howner
  | history asked => exact howner
  | clear => exact hc.elim

theorem Call.LeavesOwner.ne_clear (h : c.LeavesOwner replyId sessionId) : c ≠ .clear := by
  rintro rfl
  exact h

/-- **A reply belongs to its session, and that has gained what was written to it since.** -/
theorem Runs.find?_kept (h : Runs store later next)
    (hkept : ∀ c ∈ later, c.LeavesOwner replyId sessionId)
    (howner : Table.find? store.owners replyId = some sessionId)
    (hfind : Table.find? store.sessions sessionId = some session) :
    Table.find? next.owners replyId = some sessionId ∧
      Table.find? next.sessions sessionId =
        some (session.changed (changesTo sessionId later)) := by
  induction h with
  | nil => exact ⟨howner, hfind⟩
  | @call calls reached _ c fresh ih =>
    obtain ⟨hcalls, hlast⟩ := List.forall_mem_append.mp hkept
    have hc := List.forall_mem_singleton.mp hlast
    obtain ⟨howner, hfind⟩ := ih hcalls
    refine ⟨find?_owners_after howner hc, ?_⟩
    rw [find?_sessions_after hfind hc.ne_clear fresh, changesTo_concat, Session.changed_append]

/-- The session of a reply, as it is resumed and read. -/
theorem of_owner (hreply : replyId ≠ [])
    (howner : Table.find? store.owners replyId = some sessionId)
    (hfind : Table.find? store.sessions sessionId = some session) :
    (∀ freshId, store.resume replyId freshId = (session, store)) ∧
      store.history replyId = session.items := by
  have hsome : store.find? replyId = some session :=
    find?_eq_some.mpr ⟨hreply, sessionId, howner, hfind⟩
  constructor
  · intro freshId
    rw [resume, hsome]
  · rw [history, hsome]
    rfl

/-- **The history of a reply only grows at its end.** -/
theorem Runs.history_prefix (h : Runs store later next)
    (hkept : ∀ c ∈ later, c.LeavesOwner replyId sessionId) (hreply : replyId ≠ [])
    (howner : Table.find? store.owners replyId = some sessionId)
    (hfind : Table.find? store.sessions sessionId = some session) :
    store.history replyId <+: next.history replyId := by
  obtain ⟨hnextOwner, hnextFind⟩ := h.find?_kept hkept howner hfind
  rw [(of_owner hreply howner hfind).2, (of_owner hreply hnextOwner hnextFind).2,
    Session.items_changed]
  exact List.prefix_append ..

/-! ## 5. What a store keeps -/

/-- **A store that starts empty keeps what it was told.** After any calls each session stands under
its own id, each recorded reply belongs to a session that is there, and a session has just the items
and the tokens that were written to it since the call that created it; writes to a session that is
not there do nothing. From its recording for a session on, a reply resumes this session and creates
none, and its history only grows at its end, until everything is dropped or the reply is recorded
for another session. -/
theorem calls_keep_histories (h : Runs {} calls store) :
    (∀ id session, Table.find? store.sessions id = some session →
        session.id = id ∧
          ∃ before later replyId, calls = before ++ .resume replyId id :: later ∧
            (∃ earlier, Runs {} before earlier ∧ earlier.find? replyId = none) ∧
            .clear ∉ later ∧
            session.items = (changesTo id later).filterMap Change.item? ∧
            session.totalTokens =
              Word.toInt64 ((changesTo id later).map Change.tokens).sum) ∧
      (∀ replyId id, Table.find? store.owners replyId = some id →
        ∃ session, Table.find? store.sessions id = some session) ∧
      (∀ id, Table.find? store.sessions id = none →
        (∀ item tokens, store.append id item tokens = store) ∧
          ∀ replyId, store.recordReply id replyId = store) ∧
      ∀ sessionId session replyId, Table.find? store.sessions sessionId = some session →
        replyId ≠ [] → ∀ later next, Runs (store.recordReply sessionId replyId) later next →
        (∀ c ∈ later, c.LeavesOwner replyId sessionId) →
          (∃ kept, Table.find? next.sessions sessionId = some kept ∧ kept.id = sessionId ∧
            ∀ freshId, next.resume replyId freshId = (kept, next)) ∧
          ∀ more last, Runs next more last → (∀ c ∈ more, c.LeavesOwner replyId sessionId) →
            next.history replyId <+: last.history replyId := by
  have hsound : store.Sound := h.sound sound_empty
  refine ⟨fun id session hfind => ⟨hsound.id_eq hfind, ?_⟩, fun replyId id howner => ?_,
    fun id hnone => ⟨?_, ?_⟩, ?_⟩
  · obtain ⟨before, later, replyId, hcalls, hcreated, hkept, rfl⟩ := h.created hfind
    refine ⟨before, later, replyId, hcalls, hcreated, hkept, Session.items_changed .., ?_⟩
    rw [Session.totalTokens_changed _ _ rfl, Int.zero_add]
  · exact Option.isSome_iff_exists.mp (hsound.owned howner)
  · exact fun item tokens => change_of_none hnone (.append item tokens)
  · exact fun replyId => change_of_none hnone (.recordReply replyId)
  · intro sessionId session replyId hfind hreply later next hlater hkept
    -- the recording makes the session the owner of the reply
    have howner : Table.find? (store.recordReply sessionId replyId).owners replyId =
        some sessionId := by
      have hafter := find?_owners_change store sessionId (.recordReply replyId) replyId
      rwa [hfind, if_pos ⟨rfl, rfl⟩] at hafter
    have hthere := find?_sessions_after (c := .change sessionId (.recordReply replyId)) hfind nofun
      trivial
    have hnextSound : next.Sound := hlater.sound (hsound.change sessionId (.recordReply replyId))
    obtain ⟨hnextOwner, hnextFind⟩ := hlater.find?_kept hkept howner hthere
    refine ⟨⟨_, hnextFind, hnextSound.id_eq hnextFind, (of_owner hreply hnextOwner hnextFind).1⟩,
      fun more last hmore hmoreKept => ?_⟩
    exact hmore.history_prefix hmoreKept hreply hnextOwner hnextFind

/-- Two sessions beside writes to one that is not there: the reply stays with the first session
    while another reply is recorded for the second, and its history gains the next item. -/
theorem calls_keep_histories_of_two_sessions :
    let item : Item := Item.ofText "a"
    let calls : List Call := [.resume [] "s", .change "s" (.append item 2),
      .change "none" (.append item 5), .resume "r" "t"]
    let later : List Call := [.change "t" (.recordReply "q"), .change "none" (.recordReply "r'")]
    let more : List Call := [.history "r", .change "s" (.append item 3), .resume "r" "u"]
    let store := calls.foldl after {}
    let next := later.foldl after (store.recordReply "s" "r")
    let last := more.foldl after next
    Runs {} calls store ∧ Runs (store.recordReply "s" "r") later next ∧ Runs next more last ∧
      (∃ kept : Session, kept.id = "s" ∧ ∀ freshId, next.resume "r" freshId = (kept, next)) ∧
      next.history "r" = [item] ∧ last.history "r" = [item, item] ∧
      next.history "r" <+: last.history "r" := by
  intro item calls later more store next last
  have hcalls : Runs {} calls store :=
    (((Runs.nil.call (by decide)).call (by decide)).call (by decide)).call (by decide)
  have hlater : Runs (store.recordReply "s" "r") later next :=
    (Runs.nil.call (by decide)).call (by decide)
  have hmore : Runs next more last :=
    ((Runs.nil.call (by decide)).call (by decide)).call (by decide)
  obtain ⟨⟨kept, -, hid, hresume⟩, hprefix⟩ :=
    (calls_keep_histories hcalls).2.2.2 "s" _ "r" rfl (by decide) later next hlater
      (by decide)
  exact ⟨hcalls, hlater, hmore, ⟨kept, hid, hresume⟩, by decide, by decide,
    hprefix more last hmore (by decide)⟩

end ChatRelay.SessionStore
