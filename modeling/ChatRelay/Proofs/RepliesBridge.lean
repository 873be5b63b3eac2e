import ChatRelay.Proofs.ReplyObjects

/-!
# The bridge of clients of the Responses dialect

What a request of such a client comes to, and what becomes of the reply. A request that is built had
an object for a body and an input that can be read (`of_request`, `exists_input_of_target`). A reply
that is turned into a reply object can be written then, whether or not it is recorded first
(`exists_result_reply`): from there on nothing can fail any more.
-/

namespace ChatRelay

theorem Attempt.result_andThen {α β : Type} (x : Attempt α) (f : α → Attempt β) :
    (x.andThen f).result = x.result >>= fun a => (f a).result := by
  rw [Attempt.andThen]
  cases x.result <;> rfl

namespace RepliesClient

open Json

variable {dialect : Dialect} {inbound : ClientRequest} {backend : Backend} {apiKey body : Bytes}
  {sessions : SessionStore} {options : Options} {outbound : BackendRequest} {value : Json}
  {built : Bytes × Bytes}

/-! ## 1. Requests -/

/-- A request that is built: its body is an object, and what goes to the backend is the target's. -/
theorem of_request
    (h : (request dialect inbound backend apiKey sessions options).result = .ok outbound) :
    ∃ value endpoint, parseObject inbound.body "Responses request" = .ok value ∧
      (target dialect value inbound.body backend sessions options).result =
        .ok (endpoint, outbound.body) := by
  rw [request] at h
  simp only [Attempt.bind_eq, Attempt.result_andThen] at h
  obtain ⟨value, hvalue, h⟩ := bind_eq_ok_iff.mp h
  obtain ⟨⟨endpoint, body⟩, htarget, h⟩ := bind_eq_ok_iff.mp h
  obtain ⟨_, -, h⟩ := bind_eq_ok_iff.mp h
  cases h
  exact ⟨value, endpoint, hvalue, htarget⟩

theorem of_target_claude
    (h : (target .claude value body backend sessions options).result = .ok built) :
    ∃ converted, claudeBody value (sessions.history (Asked.ofJson value).previousId)
        (backend.redirect (Asked.ofJson value).model) options.defaultMaxTokens = .ok converted ∧
      converted.dump = .ok built.2 := by
  simp only [target, Attempt.bind_eq, Attempt.result_andThen] at h
  obtain ⟨_, -, h⟩ := bind_eq_ok_iff.mp h
  obtain ⟨converted, hconverted, h⟩ := bind_eq_ok_iff.mp h
  obtain ⟨body, hbody, h⟩ := bind_eq_ok_iff.mp h
  cases h
  exact ⟨converted, hconverted, hbody⟩

theorem of_target_openai
    (h : (target .openai value body backend sessions options).result = .ok built) :
    ∃ converted, openaiBody value (sessions.history (Asked.ofJson value).previousId)
        (backend.redirect (Asked.ofJson value).model) = .ok converted ∧
      converted.dump = .ok built.2 := by
  simp only [target, Attempt.bind_eq, Attempt.result_andThen] at h
  obtain ⟨_, -, h⟩ := bind_eq_ok_iff.mp h
  obtain ⟨converted, hconverted, h⟩ := bind_eq_ok_iff.mp h
  obtain ⟨body, hbody, h⟩ := bind_eq_ok_iff.mp h
  cases h
  exact ⟨converted, hconverted, hbody⟩

/-- Messages in order: those of the history, and those of the new input. -/
theorem of_claudeMessages {history : List Item} {input : Json} {messages : List Json}
    (h : Item.claudeMessages history input = .ok messages) :
    ∃ items found, Item.ofInput input = .ok items ∧
      (history ++ items).mapM Item.claudeMessage? = .ok found ∧ messages = found.filterMap id := by
  obtain ⟨earlier, hearlier, h⟩ := bind_eq_ok_iff.mp h
  obtain ⟨items, hitems, h⟩ := bind_eq_ok_iff.mp h
  obtain ⟨later, hlater, h⟩ := bind_eq_ok_iff.mp h
  cases h
  exact ⟨items, _, hitems, mapM_append_eq_ok_iff.mpr ⟨earlier, hearlier, later, hlater, rfl⟩, rfl⟩

theorem of_chatMessages {history : List Item} {input : Json} {instructions : Bytes}
    {messages : List Json} (h : Item.chatMessages history input instructions = .ok messages) :
    ∃ items found, Item.ofInput input = .ok items ∧
      (history ++ items).mapM Item.chatMessage? = .ok found ∧
      messages = (if instructions.isEmpty then []
        else [.object [("role", .str "system"), ("content", .str instructions)]]) ++
          found.filterMap id := by
  obtain ⟨earlier, hearlier, h⟩ := bind_eq_ok_iff.mp h
  obtain ⟨items, hitems, h⟩ := bind_eq_ok_iff.mp h
  obtain ⟨later, hlater, h⟩ := bind_eq_ok_iff.mp h
  cases h
  exact ⟨items, _, hitems, mapM_append_eq_ok_iff.mpr ⟨earlier, hearlier, later, hlater, rfl⟩, rfl⟩

/-- **Whatever the backend, the input of a request that is built can be read.** -/
theorem exists_input_of_target
    (h : (target dialect value body backend sessions options).result = .ok built) :
    ∃ input, Item.ofInput (Asked.ofJson value).input = .ok input := by
  cases dialect with
  | claude =>
    obtain ⟨converted, hconverted, -⟩ := of_target_claude h
    obtain ⟨messages, hmessages, -⟩ := bind_eq_ok_iff.mp hconverted
    obtain ⟨items, -, hitems, -⟩ := of_claudeMessages hmessages
    exact ⟨items, hitems⟩
  | openai =>
    obtain ⟨converted, hconverted, -⟩ := of_target_openai h
    obtain ⟨messages, hmessages, -⟩ := bind_eq_ok_iff.mp hconverted
    obtain ⟨items, -, hitems, -⟩ := of_chatMessages hmessages
    exact ⟨items, hitems⟩
  | gemini => cases h
  | responses =>
    simp only [target, Attempt.bind_eq, Attempt.result_andThen] at h
    obtain ⟨items, hitems, -⟩ := bind_eq_ok_iff.mp h
    exact ⟨items, hitems⟩

/-! ## 2. Reply objects -/

/-- The items of a backend's reply; a reply of the Responses dialect is not taken apart. -/
def itemsOf (dialect : Dialect) (reply : Json) : List Item :=
  match dialect with
  | .claude => Reply.itemsOfClaude reply
  | .openai => Reply.itemsOfOpenai reply
  | .gemini | .responses => []

theorem itemsOf_eq (dialect : Dialect) (reply : Json) :
    ∀ item ∈ itemsOf dialect reply, ∃ part key, item = Item.ofText (stringField part key) ∧
      (reply.isText = true → part.isText = true) := by
  intro item hitem
  cases dialect with
  | claude =>
    obtain ⟨block, hblock, hitem⟩ := List.mem_filterMap.mp hitem
    obtain ⟨-, hitem⟩ := Option.ite_none_right_eq_some.mp hitem
    refine ⟨block, "text", (Option.some.inj hitem).symm, fun htext => ?_⟩
    cases hcontent : reply.arrayField? "content" with
    | none =>
      rw [hcontent] at hblock
      exact absurd hblock List.not_mem_nil
    | some blocks =>
      rw [hcontent] at hblock
      exact isText_of_mem_arrayField? htext hcontent block hblock
  | openai =>
    obtain ⟨choice, hchoice, rfl⟩ := List.mem_map.mp hitem
    refine ⟨_, _, rfl, fun htext => ?_⟩
    exact isText_fieldD (isText_headField? htext (Option.mem_toList.mp hchoice)) rfl
  | gemini => exact absurd hitem List.not_mem_nil
  | responses => exact absurd hitem List.not_mem_nil

variable {previousId freshId : Bytes} {object : Json}

/-- The reply object for a reply of a dialect that is not its own. -/
theorem replyObject_cases (h : replyObject dialect body previousId freshId = .ok object) :
    ∃ reply, parse? body = some reply ∧
      (((dialect = .claude ∨ dialect = .openai) ∧ ∃ usage, object =
        Reply.envelope freshId (reply.stringField "model") (itemsOf dialect reply) usage
          previousId) ∨
      ((dialect = .gemini ∨ dialect = .responses) ∧ object = reply)) := by
  cases dialect with
  | claude =>
    obtain ⟨reply, hreply, h⟩ := bind_eq_ok_iff.mp h
    obtain ⟨usage, -, h⟩ := bind_eq_ok_iff.mp h
    cases h
    exact ⟨reply, (of_parseObject hreply).1, .inl ⟨.inl rfl, usage, rfl⟩⟩
  | openai =>
    obtain ⟨reply, hreply, h⟩ := bind_eq_ok_iff.mp h
    obtain ⟨usage, -, h⟩ := bind_eq_ok_iff.mp h
    cases h
    exact ⟨reply, (of_parseObject hreply).1, .inl ⟨.inr rfl, usage, rfl⟩⟩
  | gemini => exact ⟨object, (of_parseObject h).1, .inr ⟨.inl rfl, rfl⟩⟩
  | responses => exact ⟨object, (of_parseObject h).1, .inr ⟨.inr rfl, rfl⟩⟩

/-- **A reply object is read back from its text.** -/
theorem readable_replyObject (h : replyObject dialect body previousId freshId = .ok object)
    (hprevious : Utf8.valid previousId = true) (hfresh : Utf8.valid freshId = true) :
    object.Readable := by
  obtain ⟨reply, hreply, ⟨-, usage, rfl⟩ | ⟨-, rfl⟩⟩ := replyObject_cases h
  · have htext := (readable_of_parse? hreply).isText
    refine Reply.readable_envelope hfresh (valid_stringField htext) (fun item hitem => ?_)
      hprevious
    obtain ⟨part, key, rfl, hpart⟩ := itemsOf_eq dialect reply item hitem
    exact ⟨_, valid_stringField (hpart htext), rfl⟩
  · exact readable_of_parse? hreply

/-! ## 3. Replies -/

/-- The reply object as it is answered: it names the latest reply of the session. -/
def answered (session : Session) (object : Json) : Json :=
  if session.lastReplyId.isEmpty then object
  else object.set "previous_id" (.str session.lastReplyId)

theorem readable_answered {session : Session} (h : object.Readable)
    (hlast : Utf8.valid session.lastReplyId = true) : (answered session object).Readable := by
  unfold answered
  split
  · exact h
  · exact h.set rfl (.str hlast)

/-- An answer that can be written names a reply whose id is UTF-8. -/
theorem readable_answered_of_isText {session : Session} (h : object.Readable)
    (htext : (answered session object).isText = true) : (answered session object).Readable := by
  unfold answered at htext ⊢
  split at htext
  · rename_i hlast
    rw [if_pos hlast]
    exact h
  · rename_i hlast
    rw [if_neg hlast]
    cases object with
    | obj fields =>
      have hname := isText_field? htext (Table.find?_insert_self ..)
      exact h.set rfl (.str hname)
    | _ => exact h

theorem stringField_id_answered (session : Session) (object : Json) :
    (answered session object).stringField "id" = object.stringField "id" := by
  unfold answered
  split
  · rfl
  · cases object with
    | obj fields =>
      have hfield : ((Json.obj fields).set "previous_id" (.str session.lastReplyId)).field? "id" =
          (Json.obj fields).field? "id" :=
        Table.find?_insert_of_ne fields _ (by decide)
      rw [stringField, stringFieldD, hfield]
      rfl
    | _ => rfl

variable {asked : Asked} {fresh : Nat} {input : List Item}

theorem result_record (hinput : Item.ofInput asked.input = .ok input) (object : Json)
    (sessions : SessionStore) (freshId : Bytes) :
    (record asked object sessions freshId).2.result =
      .ok (answered (sessions.resume asked.previousId freshId).1 object) := by
  rw [record, hinput]
  rfl

/-- A reply that is no reply object leaves the sessions alone. -/
theorem reply_of_error {e : RelayError}
    (h : replyObject dialect body asked.previousId (Identifier.reply fresh) = .error e)
    (sessions : SessionStore) : reply dialect asked body sessions fresh =
      (sessions, ⟨[], .error e⟩) := by
  rw [reply, h]

/-- So does a reply that is not to be stored. -/
theorem sessions_reply_of_unstored (hstore : asked.store = false) (dialect : Dialect)
    (body : Bytes) (sessions : SessionStore) (fresh : Nat) :
    (reply dialect asked body sessions fresh).1 = sessions := by
  rw [reply]
  cases replyObject dialect body asked.previousId (Identifier.reply fresh) with
  | error e => rfl
  | ok object =>
    simp only [hstore]
    rfl

theorem result_reply_of_unstored
    (h : replyObject dialect body asked.previousId (Identifier.reply fresh) = .ok object)
    (hstore : asked.store = false) (sessions : SessionStore) :
    (reply dialect asked body sessions fresh).2.result = object.dump := by
  rw [reply, h]
  simp only [hstore]
  exact Attempt.result_andThen _ _

theorem reply_of_stored
    (h : replyObject dialect body asked.previousId (Identifier.reply fresh) = .ok object)
    (hstore : asked.store = true) (sessions : SessionStore) :
    (reply dialect asked body sessions fresh).1 =
        (record asked object sessions (Identifier.session fresh)).1 ∧
      (reply dialect asked body sessions fresh).2.result =
        (record asked object sessions (Identifier.session fresh)).2.result >>= Json.dump := by
  rw [reply, h]
  simp only [hstore, if_true]
  exact ⟨trivial, Attempt.result_andThen _ _⟩

/-- **A reply object can be answered**, recorded or not, where the input could be read and the
    latest reply of the session can be named. The client reads the id of the reply object back. -/
theorem exists_result_reply
    (h : replyObject dialect body asked.previousId (Identifier.reply fresh) = .ok object)
    (hinput : Item.ofInput asked.input = .ok input)
    (hprevious : Utf8.valid asked.previousId = true)
    (hlast : Utf8.valid (sessions.resume asked.previousId (Identifier.session fresh)).1.lastReplyId
      = true) :
    ∃ whole : Json, whole.Readable ∧ whole.stringField "id" = object.stringField "id" ∧
      (reply dialect asked body sessions fresh).2.result = .ok whole.render := by
  have hobject := readable_replyObject h hprevious (Identifier.valid_reply fresh)
  cases hstore : asked.store with
  | true =>
    refine ⟨_, readable_answered hobject hlast, stringField_id_answered .., ?_⟩
    rw [(reply_of_stored h hstore sessions).2, result_record hinput]
    exact dump_of_isText (readable_answered hobject hlast).isText
  | false =>
    refine ⟨object, hobject, rfl, ?_⟩
    rw [result_reply_of_unstored h hstore]
    exact dump_of_isText hobject.isText

end RepliesClient

end ChatRelay
