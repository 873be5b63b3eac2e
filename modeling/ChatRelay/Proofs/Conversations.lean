import ChatRelay.Proofs.RepliesBridge
import ChatRelay.Proofs.Sessions

/-!
# Conversations

A client of the Responses dialect sends only what is new and names the reply that it continues. The
backend is sent the whole conversation nevertheless, as the session store has it.

* `Exchanged` -- a whole exchange, from the request to the answer; `Turn` is what it adds to a
  conversation;
* `Conversation` -- the stored exchanges of one conversation, each naming the reply before it, with
  any exchanges of other conversations in the same store in between;
* `Follows` -- the INVARIANT of such a conversation: one session has its turns in their order and
  nothing else, and the replies of that session are those of the conversation;
* `conversation_continues` -- so the next request that is built sends exactly the conversation so
  far and the new input.
-/

namespace ChatRelay

open Json

/-! ## 1. Messages of items -/

namespace Item

/-- The message of an item for a backend. Backends of the two other dialects are sent no items. -/
def messageFor (dialect : Dialect) (i : Item) : Except RelayError (Option Json) :=
  match dialect with
  | .claude => i.claudeMessage?
  | .openai => i.chatMessage?
  | .gemini | .responses => .ok none

/-- The messages of some items, in their order; an item may come to none. -/
def messagesFor (dialect : Dialect) (items : List Item) : List Json :=
  items.filterMap fun i => (i.messageFor dialect).toOption.join

variable {dialect : Dialect} {items : List Item}

theorem messagesFor_of_mapM (dialect : Dialect) {found : List (Option Json)}
    (h : items.mapM (messageFor dialect) = .ok found) :
    found.filterMap id = messagesFor dialect items ∧
      ∀ i ∈ items, ∃ m, i.messageFor dialect = .ok m := by
  induction items generalizing found with
  | nil =>
    cases h
    exact ⟨rfl, List.forall_mem_nil _⟩
  | cons i items ih =>
    obtain ⟨m, hm, rest, hrest, rfl⟩ := mapM_cons_eq_ok_iff.mp h
    obtain ⟨hmessages, hall⟩ := ih hrest
    refine ⟨?_, List.forall_mem_cons.mpr ⟨⟨m, hm⟩, hall⟩⟩
    rw [messagesFor, List.filterMap_cons, List.filterMap_cons, hm, hmessages]
    rfl

theorem messagesFor_append (items more : List Item) :
    messagesFor dialect (items ++ more) = messagesFor dialect items ++ messagesFor dialect more :=
  List.filterMap_append

theorem exists_of_mem_messagesFor {m : Json} (h : m ∈ messagesFor dialect items) :
    ∃ i ∈ items, i.messageFor dialect = .ok (some m) := by
  obtain ⟨i, hi, hm⟩ := List.mem_filterMap.mp h
  refine ⟨i, hi, ?_⟩
  cases hmessage : i.messageFor dialect with
  | error e =>
    rw [hmessage] at hm
    cases hm
  | ok message? =>
    rw [hmessage] at hm
    exact congrArg Except.ok hm

/-- A message has the role of its item. -/
theorem role_of_messageFor {i : Item} {m : Json} (h : i.messageFor dialect = .ok (some m)) :
    m.stringField "role" = i.roleOrUser := by
  have hrole (content : Json) :
      (Json.object [("role", .str i.roleOrUser), ("content", content)]).stringField "role" =
        i.roleOrUser := rfl
  cases dialect with
  | claude =>
    simp only [messageFor, claudeMessage?] at h
    split at h
    · obtain ⟨-, h⟩ := Option.ite_none_left_eq_some.mp (Except.ok.inj h)
      cases h
      exact hrole _
    · split at h
      · split at h
        · cases h
        · cases h
          exact hrole _
      · split at h <;> cases h
  | openai =>
    simp only [messageFor, chatMessage?] at h
    split at h
    · obtain ⟨-, h⟩ := Option.ite_none_left_eq_some.mp (Except.ok.inj h)
      cases h
      exact hrole _
    · split at h <;> cases h
  | gemini => cases h
  | responses => cases h

end Item

namespace RepliesClient

/-! ## 2. Requests -/

/-- What a request asks for. -/
def askedOf (inbound : ClientRequest) : Asked :=
  Asked.ofRequest {} inbound

/-- The instructions as an OpenAI backend is sent them; Claude has a field for them. -/
def instructionMessages (dialect : Dialect) (instructions : Bytes) : List Json :=
  match dialect with
  | .openai =>
    if instructions.isEmpty then []
    else [.object [("role", .str "system"), ("content", .str instructions)]]
  | .claude | .gemini | .responses => []

variable {dialect : Dialect} {inbound : ClientRequest} {backend : Backend} {apiKey : Bytes}
  {sessions : SessionStore} {options : Options} {outbound : BackendRequest}

theorem askedOf_eq {value : Json} (h : parseObject inbound.body "Responses request" = .ok value) :
    askedOf inbound = .ofJson value := by
  rw [askedOf, Asked.ofRequest, h]

theorem valid_previousId (inbound : ClientRequest) :
    Utf8.valid (askedOf inbound).previousId = true := by
  rw [askedOf, Asked.ofRequest]
  split
  · rename_i value hvalue
    exact valid_stringField (isText_of_parse? (of_parseObject hvalue).1)
  · rfl

/-- **What a request that is built sends**: the instructions, the messages of the history and those
    of the new input. -/
theorem sent_of_request (hdialect : dialect = .claude ∨ dialect = .openai)
    (h : (request dialect inbound backend apiKey sessions options).result = .ok outbound) :
    ∃ (value : Json) (input : List Item) (sent : Json),
      parseObject inbound.body "Responses request" = .ok value ∧
      Item.ofInput (askedOf inbound).input = .ok input ∧
      sent.dump = .ok outbound.body ∧
      (∀ i ∈ sessions.history (askedOf inbound).previousId ++ input,
        ∃ m, i.messageFor dialect = .ok m) ∧
      sent.field? "messages" = some (.arr (
        instructionMessages dialect (value.stringField "instructions") ++
          Item.messagesFor dialect (sessions.history (askedOf inbound).previousId ++ input))) ∧
      (dialect = .claude → sent.field? "system" =
        if (value.stringField "instructions").isEmpty then none
        else some (.str (value.stringField "instructions"))) := by
  obtain ⟨value, endpoint, hvalue, htarget⟩ := of_request h
  rw [askedOf_eq hvalue]
  obtain rfl | rfl := hdialect
  · obtain ⟨sent, hsent, hbody⟩ := of_target_claude htarget
    obtain ⟨messages, hmessages, hsent⟩ := bind_eq_ok_iff.mp hsent
    obtain ⟨input, found, hinput, hfound, rfl⟩ := of_claudeMessages hmessages
    obtain ⟨hconverted, hall⟩ := Item.messagesFor_of_mapM .claude hfound
    cases hsent
    refine ⟨value, input, _, hvalue, hinput, hbody, hall, ?_, fun _ => ?_⟩
    · rw [field?_objectWith rfl, hconverted]
      rfl
    · rw [field?_objectWith_of_nodup (by simp only [List.map_cons, List.map_nil]; decide)]
      rfl
  · obtain ⟨sent, hsent, hbody⟩ := of_target_openai htarget
    obtain ⟨messages, hmessages, hsent⟩ := bind_eq_ok_iff.mp hsent
    obtain ⟨input, found, hinput, hfound, rfl⟩ := of_chatMessages hmessages
    obtain ⟨hconverted, hall⟩ := Item.messagesFor_of_mapM .openai hfound
    cases hsent
    refine ⟨value, input, _, hvalue, hinput, hbody, hall, ?_, nofun⟩
    rw [field?_objectWith rfl, hconverted]
    rfl

/-! ## 3. Exchanges -/

/-- The id that a client reads in an answer. -/
def idOf (answer : Bytes) : Bytes :=
  ((parse? answer).getD .null).stringField "id"

theorem idOf_render {whole : Json} (h : whole.Readable) :
    idOf whole.render = whole.stringField "id" := by
  rw [idOf, parse?_render h]
  rfl

/-- **A whole exchange** with a backend of a dialect: a request that was built, from the sessions of
    some earlier moment, and the reply to it, with the sessions before the reply. -/
structure Exchanged (dialect : Dialect) (before : SessionStore) where
  inbound : ClientRequest
  /-- What the backend replied. -/
  body : Bytes
  /-- What the client was answered. -/
  answer : Bytes
  fresh : Nat
  built : ∃ backend apiKey earlier options,
    (request dialect inbound backend apiKey earlier options).result.toOption.isSome
  replied : (reply dialect (askedOf inbound) body before fresh).2.result = .ok answer
  /-- A session that the exchange begins goes under a new id. -/
  unused : before.find? (askedOf inbound).previousId = none →
    Table.find? before.sessions (Identifier.session fresh) = none

variable {before : SessionStore}

namespace Exchanged

def asked (e : Exchanged dialect before) : Asked :=
  askedOf e.inbound

/-- The sessions after the reply. -/
def after (e : Exchanged dialect before) : SessionStore :=
  (reply dialect e.asked e.body before e.fresh).1

def replyId (e : Exchanged dialect before) : Bytes :=
  idOf e.answer

/-- The session that the exchange resumes, and the store with it. -/
def resumed (e : Exchanged dialect before) : Session × SessionStore :=
  before.resume e.asked.previousId (Identifier.session e.fresh)

/-- **What an exchange does to the sessions**: nothing if it is not to be stored, else it resumes
    one and records itself there. The client knows the reply by the id that is recorded. -/
theorem cases (e : Exchanged dialect before) :
    ∃ object, replyObject dialect e.body e.asked.previousId (Identifier.reply e.fresh) =
        .ok object ∧
      e.replyId = object.stringField "id" ∧
      (e.asked.store = false → e.after = before) ∧
      (e.asked.store = true → ∃ input, Item.ofInput e.asked.input = .ok input ∧
        e.after = e.resumed.2.changed e.resumed.1.id (exchangeOf input object).changes) := by
  have hreplied : (reply dialect e.asked e.body before e.fresh).2.result = .ok e.answer := e.replied
  cases hobject : replyObject dialect e.body e.asked.previousId (Identifier.reply e.fresh) with
  | error failure =>
    rw [reply_of_error hobject] at hreplied
    cases hreplied
  | ok object =>
    have hreadable := readable_replyObject hobject (valid_previousId e.inbound)
      (Identifier.valid_reply e.fresh)
    refine ⟨object, rfl, ?_⟩
    cases hstore : e.asked.store with
    | false =>
      rw [result_reply_of_unstored hobject hstore] at hreplied
      refine ⟨?_, fun _ => sessions_reply_of_unstored hstore ..,
        fun h => absurd h Bool.false_ne_true⟩
      rw [replyId, (of_dump hreplied).2, idOf_render hreadable]
    | true =>
      obtain ⟨hsessions, hresult⟩ := reply_of_stored hobject hstore before
      rw [hresult] at hreplied
      obtain ⟨whole, hwhole, hdump⟩ := bind_eq_ok_iff.mp hreplied
      cases hinput : Item.ofInput e.asked.input with
      | error failure =>
        -- then there would be no answer
        rw [record, hinput] at hwhole
        cases hwhole
      | ok input =>
        rw [result_record hinput] at hwhole
        cases hwhole
        obtain ⟨htext, hanswer⟩ := of_dump hdump
        refine ⟨?_, fun h => absurd h.symm Bool.false_ne_true, fun _ => ⟨input, rfl, ?_⟩⟩
        · rw [replyId, hanswer, idOf_render (readable_answered_of_isText hreadable htext),
            stringField_id_answered]
        · rw [after, hsessions, record, hinput]
          exact SessionStore.record_eq ..

end Exchanged

/-- What an exchange adds to a conversation. -/
structure Turn where
  input : List Item
  output : List Item
  replyId : Bytes

def Turn.items (t : Turn) : List Item :=
  t.input ++ t.output

/-- The messages of turns, one turn after the other. -/
theorem messagesFor_turns (dialect : Dialect) (turns : List Turn) :
    Item.messagesFor dialect (turns.flatMap Turn.items) = turns.flatMap fun t =>
      Item.messagesFor dialect t.input ++ Item.messagesFor dialect t.output := by
  rw [Item.messagesFor, List.filterMap_flatMap]
  exact congrArg turns.flatMap (funext fun t => Item.messagesFor_append t.input t.output)

/-- The turn of an exchange: the input of the request, and the text of the backend's reply as the
    assistant's. -/
def Exchanged.turn (e : Exchanged dialect before) : Turn where
  input := (Item.ofInput e.asked.input).toOption.getD []
  output := (((parse? e.body).map (itemsOf dialect)).getD []).map fun item =>
    { item with role := "assistant" }
  replyId := e.replyId

/-- An exchange that is stored adds its turn to the session that it resumes. -/
theorem Exchanged.stored (e : Exchanged dialect before) (hstore : e.asked.store = true)
    (hdialect : dialect = .claude ∨ dialect = .openai) :
    ∃ changes, e.after = e.resumed.2.changed e.resumed.1.id changes ∧
      changes.filterMap SessionStore.Change.item? = e.turn.items ∧
      changes.filterMap SessionStore.Change.replyId? = [e.replyId] ∧ e.replyId ≠ [] := by
  obtain ⟨object, hobject, hid, -, hstored⟩ := e.cases
  obtain ⟨input, hinput, hafter⟩ := hstored hstore
  obtain ⟨reply, hreply, ⟨-, usage, rfl⟩ | ⟨hother, -⟩⟩ := replyObject_cases hobject
  · rw [Reply.stringField_id_envelope] at hid
    have hnamed : e.replyId ≠ [] := by
      rw [hid]
      exact nofun
    refine ⟨_, hafter, ?_, ?_, hnamed⟩
    · rw [SessionStore.items_changes, Turn.items, turn, hinput, hreply]
      refine congrArg (input ++ ·) (Reply.outputItems_envelope fun item hitem => ?_)
      obtain ⟨part, key, rfl, -⟩ := itemsOf_eq dialect reply item hitem
      exact ⟨_, rfl⟩
    · rw [SessionStore.replyIds_changes, hid]
      show (if (Json.stringField _ "id").isEmpty then [] else [Json.stringField _ "id"]) = _
      rw [Reply.stringField_id_envelope]
      rfl
  · obtain rfl | rfl := hdialect <;> obtain h | h := hother <;> cases h

/-! ## 4. Conversations -/

/-- The id that the next request of a conversation names; empty before the first turn. -/
def latestId (turns : List Turn) : Bytes :=
  (turns.getLast?.map Turn.replyId).getD []

/-- **A conversation** with a backend of a dialect, and the sessions after it: its own exchanges are
    stored and name the reply of the turn before, those of other conversations name none of its
    replies and are answered under other ids. -/
inductive Conversation (dialect : Dialect) : List Turn → SessionStore → Prop where
  | start {store : SessionStore} (hsound : store.Sound) : Conversation dialect [] store
  | turn {turns : List Turn} {before : SessionStore} (h : Conversation dialect turns before)
      (e : Exchanged dialect before) (hstore : e.asked.store = true)
      (hnext : e.asked.previousId = latestId turns) :
      Conversation dialect (turns ++ [e.turn]) e.after
  | other {turns : List Turn} {before : SessionStore} {dialect' : Dialect}
      (h : Conversation dialect turns before) (e : Exchanged dialect' before)
      (hprevious : e.asked.previousId ∉ turns.map Turn.replyId)
      (hreply : e.replyId ∉ turns.map Turn.replyId) : Conversation dialect turns e.after

/-- **The invariant of a conversation.** -/
structure Follows (turns : List Turn) (store : SessionStore) : Prop where
  sound : store.Sound
  named : ∀ t ∈ turns, t.replyId ≠ []
  assistant : ∀ t ∈ turns, ∀ item ∈ t.output, item.role = "assistant"
  /-- One session has the items of the turns, and its replies are those of the turns. -/
  session : turns ≠ [] → ∃ id session, Table.find? store.sessions id = some session ∧
    session.items = turns.flatMap Turn.items ∧
    ∀ replyId, Table.find? store.owners replyId = some id ↔ replyId ∈ turns.map Turn.replyId

variable {turns : List Turn} {store : SessionStore}

theorem latestId_mem (h : turns ≠ []) : latestId turns ∈ turns.map Turn.replyId := by
  rw [latestId, List.getLast?_eq_getLast_of_ne_nil h]
  exact List.mem_map_of_mem (List.getLast_mem h)

/-- The session of the turns is the one that the latest reply belongs to. -/
theorem Follows.find?_latest (h : Follows turns store) (hturns : turns ≠ []) :
    ∃ session, store.find? (latestId turns) = some session ∧
      session.items = turns.flatMap Turn.items ∧
      ∀ replyId, Table.find? store.owners replyId = some session.id ↔
        replyId ∈ turns.map Turn.replyId := by
  obtain ⟨id, session, hfind, hitems, howners⟩ := h.session hturns
  have hmem := latestId_mem hturns
  obtain ⟨t, ht, hlatest⟩ := List.mem_map.mp hmem
  have hnamed : latestId turns ≠ [] := by
    rw [← hlatest]
    exact h.named t ht
  refine ⟨session, SessionStore.find?_eq_some.mpr ⟨hnamed, id, (howners _).mpr hmem, hfind⟩, hitems,
    ?_⟩
  rw [h.sound.id_eq hfind]
  exact howners

/-- What the next request of a conversation resumes: the session of its turns, or a new one. -/
theorem Follows.resume (h : Follows turns store) (freshId : Bytes)
    (hunused : store.find? (latestId turns) = none → Table.find? store.sessions freshId = none) :
    let resumed := store.resume (latestId turns) freshId
    resumed.1.items = turns.flatMap Turn.items ∧
      ∀ replyId, Table.find? resumed.2.owners replyId = some resumed.1.id ↔
        replyId ∈ turns.map Turn.replyId := by
  by_cases hturns : turns = []
  · subst hturns
    have hfree := hunused rfl
    refine ⟨rfl, fun replyId => ⟨fun howner => ?_, fun hmem => absurd hmem List.not_mem_nil⟩⟩
    have hthere : (Table.find? store.sessions freshId).isSome := h.sound.owned howner
    rw [hfree] at hthere
    cases hthere
  · obtain ⟨session, hfind, hitems, howners⟩ := h.find?_latest hturns
    rw [SessionStore.resume, hfind]
    exact ⟨hitems, howners⟩

theorem Follows.history_eq (h : Follows turns store) :
    store.history (latestId turns) = turns.flatMap Turn.items := by
  by_cases hturns : turns = []
  · subst hturns
    rfl
  · obtain ⟨session, hfind, hitems, -⟩ := h.find?_latest hturns
    rw [SessionStore.history, hfind]
    exact hitems

/-- An exchange of the conversation adds its turn to the session. -/
theorem Follows.turn (h : Follows turns before) (hdialect : dialect = .claude ∨ dialect = .openai)
    (e : Exchanged dialect before) (hstore : e.asked.store = true)
    (hnext : e.asked.previousId = latestId turns) : Follows (turns ++ [e.turn]) e.after := by
  obtain ⟨changes, hafter, hitems, hreplyIds, hnamed⟩ := e.stored hstore hdialect
  rw [hafter]
  have hunused := e.unused
  have hfind : Table.find? e.resumed.2.sessions e.resumed.1.id = some e.resumed.1 :=
    h.sound.find?_resume ..
  have hsound : e.resumed.2.Sound := h.sound.resume ..
  have hresume := h.resume (Identifier.session e.fresh) (hnext ▸ hunused)
  rw [← hnext] at hresume
  obtain ⟨hsofar, howners⟩ : e.resumed.1.items = turns.flatMap Turn.items ∧
    ∀ replyId, Table.find? e.resumed.2.owners replyId = some e.resumed.1.id ↔
      replyId ∈ turns.map Turn.replyId := hresume
  refine ⟨hsound.changed .., ?_, ?_, fun _ => ⟨e.resumed.1.id, e.resumed.1.changed changes, ?_, ?_,
    fun replyId => ?_⟩⟩
  · exact List.forall_mem_append.mpr ⟨h.named, List.forall_mem_singleton.mpr hnamed⟩
  · refine List.forall_mem_append.mpr ⟨h.assistant, List.forall_mem_singleton.mpr ?_⟩
    intro item hitem
    obtain ⟨item, -, rfl⟩ := List.mem_map.mp hitem
    rfl
  · rw [SessionStore.find?_sessions_changed, if_pos rfl, hfind]
    rfl
  · rw [Session.items_changed, hsofar, hitems, List.flatMap_append, List.flatMap_singleton]
  · -- the new reply belongs to the session now, every other one to where it belonged before
    rw [SessionStore.find?_owners_changed, hfind, hreplyIds, List.map_append, List.mem_append]
    by_cases hnew : replyId = e.replyId
    · rw [if_pos ⟨List.mem_singleton.mpr hnew, rfl⟩]
      exact iff_of_true rfl (.inr (List.mem_singleton.mpr hnew))
    · rw [if_neg fun hboth => hnew (List.mem_singleton.mp hboth.1), howners]
      exact (or_iff_left fun hmem => hnew (List.mem_singleton.mp hmem)).symm

/-- An exchange of another conversation resumes another session, and records another reply. -/
theorem Follows.other (h : Follows turns before) (e : Exchanged dialect before)
    (hprevious : e.asked.previousId ∉ turns.map Turn.replyId)
    (hreply : e.replyId ∉ turns.map Turn.replyId) : Follows turns e.after := by
  obtain ⟨object, -, hid, hunstored, hstored⟩ := e.cases
  cases hstore : e.asked.store with
  | false =>
    rw [hunstored hstore]
    exact h
  | true =>
    obtain ⟨input, -, hafter⟩ := hstored hstore
    rw [hafter]
    have hsound : e.resumed.2.Sound := h.sound.resume ..
    refine ⟨hsound.changed .., h.named, h.assistant, fun hturns => ?_⟩
    obtain ⟨id, session, hfind, hitems, howners⟩ := h.session hturns
    obtain ⟨hapart, hsame⟩ : e.resumed.1.id ≠ id ∧
        Table.find? e.resumed.2.sessions id = some session :=
      h.sound.resume_apart hfind (mt (howners _).mp hprevious) e.unused
    refine ⟨id, session, ?_, hitems, fun replyId => ?_⟩
    · rw [SessionStore.find?_sessions_changed, if_neg hapart.symm]
      exact hsame
    · rw [SessionStore.find?_owners_changed]
      split
      · rename_i hrecorded
        have hother : replyId = e.replyId := by
          rw [hid]
          exact SessionStore.eq_of_mem_replyIds_changes hrecorded.1
        rw [hother]
        exact iff_of_false (fun heq => hapart (Option.some.inj heq)) hreply
      · rw [Exchanged.resumed, SessionStore.owners_resume]
        exact howners replyId

/-- **The invariant holds throughout a conversation.** -/
theorem Conversation.follows (hdialect : dialect = .claude ∨ dialect = .openai)
    (h : Conversation dialect turns store) : Follows turns store := by
  induction h with
  | start hsound => exact ⟨hsound, nofun, nofun, fun hne => absurd rfl hne⟩
  | turn _ e hstore hnext ih => exact ih.turn hdialect e hstore hnext
  | other _ e hprevious hreply ih => exact ih.other e hprevious hreply

/-! ## 5. The next request -/

/-- **A conversation continues.** The next request of a conversation that is built sends the backend
    its instructions, then turn after turn the messages of the input and those of the output as the
    assistant's, then the messages of the new input, and nothing else. -/
theorem conversation_continues (hdialect : dialect = .claude ∨ dialect = .openai)
    (h : Conversation dialect turns sessions)
    (hnext : (askedOf inbound).previousId = latestId turns)
    (hbuilt : (request dialect inbound backend apiKey sessions options).result = .ok outbound) :
    ∃ (value : Json) (input : List Item) (sent : Json),
      parseObject inbound.body "Responses request" = .ok value ∧
      Item.ofInput (askedOf inbound).input = .ok input ∧
      sent.dump = .ok outbound.body ∧
      sent.field? "messages" = some (.arr (
        instructionMessages dialect (value.stringField "instructions") ++
        turns.flatMap (fun t =>
          Item.messagesFor dialect t.input ++ Item.messagesFor dialect t.output) ++
        Item.messagesFor dialect input)) ∧
      (dialect = .claude → sent.field? "system" =
        if (value.stringField "instructions").isEmpty then none
        else some (.str (value.stringField "instructions"))) ∧
      (∀ i ∈ turns.flatMap Turn.items ++ input, ∃ m, i.messageFor dialect = .ok m) ∧
      ∀ t ∈ turns, ∀ m ∈ Item.messagesFor dialect t.output,
        m.stringField "role" = "assistant" := by
  have hfollows := h.follows hdialect
  obtain ⟨value, input, sent, hvalue, hinput, hbody, hall, hmessages, hsystem⟩ :=
    sent_of_request hdialect hbuilt
  rw [hnext, hfollows.history_eq] at hall hmessages
  refine ⟨value, input, sent, hvalue, hinput, hbody, ?_, hsystem, hall, ?_⟩
  · rw [hmessages, Item.messagesFor_append, messagesFor_turns, List.append_assoc]
  · intro t ht m hm
    obtain ⟨item, hitem, hmessage⟩ := Item.exists_of_mem_messagesFor hm
    rw [Item.role_of_messageFor hmessage, Item.roleOrUser, hfollows.assistant t ht item hitem]
    rfl

/-- A turn, an exchange of another conversation with another backend, and the next request. -/
theorem conversation_continues_interleaved :
    let ask (body : Bytes) : ClientRequest := ⟨"POST", "/v1/responses", [], [], body⟩
    let hello := ask "\x7b\"input\":\"hello\"\x7d"
    let aside := ask "\x7b\"input\":\"aside\"\x7d"
    let more := ask ("\x7b\"input\":\"more\",\"previous_response_id\":\"" ++ Identifier.reply 0 ++
      "\"\x7d")
    let claude : Backend := ⟨"b", .claude, "https://api.example", [], ["k"], []⟩
    let hi : Bytes := "\x7b\"content\":[\x7b\"type\":\"text\",\"text\":\"hi\"\x7d]\x7d"
    let no : Bytes := "\x7b\"choices\":[\x7b\"message\":\x7b\"content\":\"no\"\x7d\x7d]\x7d"
    let first := reply .claude (askedOf hello) hi {} 0
    let second := reply .openai (askedOf aside) no first.1 1
    let message (role text : Bytes) : Json := .object [("role", .str role),
      ("content", .arr [.object [("type", .str "text"), ("text", .str text)]])]
    ∃ (outbound : BackendRequest) (sent : Json),
      (request .claude more claude "k" second.1 default).result = .ok outbound ∧
      sent.dump = .ok outbound.body ∧ sent.field? "messages" = some (.arr
        [message "user" "hello", message "assistant" "hi", message "user" "more"]) := by
  intro ask hello aside more claude hi no first second message
  have hbuilt : (request .claude more claude "k" second.1 default).result.toOption.isSome := by
    decide +kernel
  have hmore : (Item.ofInput (askedOf more).input).toOption.map (Item.messagesFor .claude) =
    some [message "user" "more"] := by decide +kernel
  obtain ⟨turns, hconversation, hnext, hturns⟩ : ∃ turns, Conversation .claude turns second.1 ∧
      (askedOf more).previousId = latestId turns ∧ turns.flatMap (fun t =>
        Item.messagesFor .claude t.input ++ Item.messagesFor .claude t.output) =
          [message "user" "hello", message "assistant" "hi"] := by
    let turn : Exchanged .claude {} :=
      { inbound := hello
        body := hi
        answer := first.2.result.toOption.getD []
        fresh := 0
        built := ⟨claude, "k", {}, default, by decide +kernel⟩
        replied := by decide +kernel
        unused := fun _ => rfl }
    let other : Exchanged .openai first.1 :=
      { inbound := aside
        body := no
        answer := second.2.result.toOption.getD []
        fresh := 1
        built := ⟨{ claude with dialect := .openai }, "k", {}, default, by decide +kernel⟩
        replied := by decide +kernel
        unused := fun _ => by decide +kernel }
    have hfirst : turn.after = first.1 := congrArg Prod.fst (rfl : _ = first)
    have hsecond : other.after = second.1 := congrArg Prod.fst (rfl : _ = second)
    have hturn := Conversation.turn (.start SessionStore.sound_empty) turn (by decide +kernel)
      (by decide +kernel)
    rw [hfirst] at hturn
    have hother := hturn.other other (by decide +kernel) (by decide +kernel)
    rw [hsecond] at hother
    exact ⟨_, hother, by decide +kernel, by decide +kernel⟩
  -- from here on the two exchanges are not to be computed again
  clear_value second
  cases hresult : (request .claude more claude "k" second.1 default).result with
  | error e =>
    rw [hresult] at hbuilt
    cases hbuilt
  | ok outbound =>
    obtain ⟨_, input, sent, -, hinput, hbody, hmessages, -⟩ :=
      conversation_continues (.inl rfl) hconversation hnext hresult
    rw [hinput] at hmore
    refine ⟨outbound, sent, rfl, hbody, ?_⟩
    rw [hmessages, hturns, show Item.messagesFor .claude input = _ from Option.some.inj hmore]
    rfl

end RepliesClient

end ChatRelay
