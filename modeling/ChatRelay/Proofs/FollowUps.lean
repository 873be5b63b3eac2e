import ChatRelay.Proofs.Conversations

/-!
# Follow-ups

A client continues a reply that was stored. The backend is then sent again all that the session of
the reply has kept, so that one item that cannot be sent holds up every later request of the
session.

* `request_builds_iff` -- a request is built exactly when every item of the history and of the new
  input can be sent, and the model can be named;
* `Filled` -- the stores that only stored exchanges with backends of one dialect have filled, with
  what was recorded on the way;
* `Keeps` -- the INVARIANT of such stores: each session has the items of what was recorded in it,
  and of these every input can be sent;
* `stored_conversation_continues` -- so a follow-up is built unless a Claude backend has replied,
  somewhere in the session, with a text block that has no text. The session keeps such a block as an
  item of type `text`, and that type is refused without a text on the way to Claude.
-/

namespace ChatRelay

open Json

variable {dialect : Dialect}

/-! ## 1. Items that can be sent -/

namespace Item

/-- An item that can be sent: it comes to a message that can be written, or to none. -/
def Sendable (dialect : Dialect) (i : Item) : Prop :=
  ∃ m, i.messageFor dialect = .ok m ∧ ∀ j ∈ m, j.isText = true

theorem exists_messages_iff {items : List Item} :
    (∃ found, items.mapM (messageFor dialect) = .ok found ∧
        ∀ j ∈ found.filterMap id, j.isText = true) ↔
      ∀ i ∈ items, i.Sendable dialect := by
  constructor
  · rintro ⟨found, hfound, htext⟩ i hi
    obtain ⟨m, hm, hmessage⟩ := exists_mem_of_mem_mapM hfound hi
    refine ⟨m, hmessage, fun j hj => htext j ?_⟩
    exact List.mem_filterMap.mpr ⟨m, hm, hj⟩
  · intro h
    obtain ⟨found, hfound⟩ := mapM_eq_ok_of_forall fun i hi => (h i hi).imp fun _ hm => hm.1
    refine ⟨found, hfound, fun j hj => ?_⟩
    obtain ⟨m, hm, hj⟩ := List.mem_filterMap.mp hj
    obtain ⟨i, hi, hmessage⟩ := exists_mem_of_mapM_ok hfound m hm
    obtain ⟨m', hmessage', htext⟩ := h i hi
    cases hmessage.symm.trans hmessage'
    exact htext j hj

/-- A text item under a role. -/
def ofTextAs (role text : Bytes) : Item :=
  { ofText text with role }

variable {role text : Bytes}

theorem valid_roleOrUser (h : Utf8.valid role = true) :
    Utf8.valid (ofTextAs role text).roleOrUser = true := by
  rw [roleOrUser]
  split
  · rfl
  · exact h

/-- **A text item can be sent**, but none without a text to Claude. -/
theorem sendable_ofTextAs_iff (hdialect : dialect = .claude ∨ dialect = .openai)
    (hrole : Utf8.valid role = true) (htext : Utf8.valid text = true) :
    (ofTextAs role text).Sendable dialect ↔ (dialect = .claude → text ≠ []) := by
  have hrole : FieldIsText ("role", .str (ofTextAs role text).roleOrUser) :=
    ⟨rfl, valid_roleOrUser hrole⟩
  obtain rfl | rfl := hdialect
  · cases text with
    | nil =>
      refine iff_of_false ?_ fun h => h rfl rfl
      rintro ⟨m, hm, -⟩
      cases hm
    | cons b bs =>
      refine iff_of_true ⟨_, rfl, ?_⟩ fun _ => List.cons_ne_nil b bs
      rintro _ ⟨⟩
      refine isText_object (List.forall_mem_cons.mpr ⟨hrole, List.forall_mem_singleton.mpr ?_⟩)
      refine ⟨rfl, itemsAreText_iff.mpr (List.forall_mem_singleton.mpr (isText_object ?_))⟩
      simp only [List.forall_mem_cons]
      exact ⟨⟨rfl, rfl⟩, ⟨rfl, htext⟩, List.forall_mem_nil _⟩
  · refine iff_of_true ⟨_, rfl, ?_⟩ nofun
    cases text with
    | nil => exact nofun
    | cons b bs =>
      rintro _ ⟨⟩
      exact isText_object (List.forall_mem_cons.mpr
        ⟨hrole, List.forall_mem_singleton.mpr ⟨rfl, htext⟩⟩)

end Item

namespace RepliesClient

/-! ## 2. Requests that are built -/

variable {value input : Json} {history : List Item} {model instructions : Bytes}
  {inbound : ClientRequest} {backend : Backend} {apiKey body : Bytes}
  {sessions : SessionStore} {options : Options}

theorem exists_claudeMessages_iff :
    (∃ messages, Item.claudeMessages history input = .ok messages ∧
        ∀ m ∈ messages, m.isText = true) ↔
      ∃ items, Item.ofInput input = .ok items ∧ ∀ i ∈ history ++ items, i.Sendable .claude := by
  constructor
  · rintro ⟨messages, hmessages, htext⟩
    obtain ⟨items, found, hitems, hfound, rfl⟩ := of_claudeMessages hmessages
    exact ⟨items, hitems, Item.exists_messages_iff.mp ⟨found, hfound, htext⟩⟩
  · rintro ⟨items, hitems, hsendable⟩
    obtain ⟨found, hfound, htext⟩ := Item.exists_messages_iff.mpr hsendable
    obtain ⟨earlier, hearlier, later, hlater, rfl⟩ := mapM_append_eq_ok_iff.mp hfound
    exact ⟨_, bind_eq_ok_iff.mpr ⟨earlier, hearlier, bind_eq_ok_iff.mpr ⟨items, hitems,
      bind_eq_ok_iff.mpr ⟨later, hlater, rfl⟩⟩⟩, htext⟩

theorem exists_chatMessages_iff (hinstructions : Utf8.valid instructions = true) :
    (∃ messages, Item.chatMessages history input instructions = .ok messages ∧
        ∀ m ∈ messages, m.isText = true) ↔
      ∃ items, Item.ofInput input = .ok items ∧ ∀ i ∈ history ++ items, i.Sendable .openai := by
  constructor
  · rintro ⟨messages, hmessages, htext⟩
    obtain ⟨items, found, hitems, hfound, rfl⟩ := of_chatMessages hmessages
    exact ⟨items, hitems, Item.exists_messages_iff.mp
      ⟨found, hfound, (List.forall_mem_append.mp htext).2⟩⟩
  · rintro ⟨items, hitems, hsendable⟩
    obtain ⟨found, hfound, htext⟩ := Item.exists_messages_iff.mpr hsendable
    obtain ⟨earlier, hearlier, later, hlater, rfl⟩ := mapM_append_eq_ok_iff.mp hfound
    refine ⟨_, bind_eq_ok_iff.mpr ⟨earlier, hearlier, bind_eq_ok_iff.mpr ⟨items, hitems,
      bind_eq_ok_iff.mpr ⟨later, hlater, rfl⟩⟩⟩, List.forall_mem_append.mpr ⟨?_, htext⟩⟩
    split
    · exact List.forall_mem_nil _
    · refine List.forall_mem_singleton.mpr (isText_object ?_)
      exact List.forall_mem_cons.mpr
        ⟨⟨rfl, rfl⟩, List.forall_mem_singleton.mpr ⟨rfl, hinstructions⟩⟩

/-- A body around messages can be written when the model can be named and the messages can be
    written, if the rest of it can. -/
theorem exists_body_iff {computed : Except RelayError (List Json)} {further : List (Bytes × Json)}
    {rest : List (Bytes × Option Json)}
    (hkeys : (Bytes.ofString "model" :: Bytes.ofString "messages" ::
      (further.map (·.1) ++ rest.map (·.1))).Nodup)
    (hfurther : ∀ field ∈ further, FieldIsText field)
    (hrest : ∀ field ∈ rest, ∀ j ∈ field.2, FieldIsText (field.1, j)) :
    (∃ converted, (computed >>= fun messages => .ok (objectWith
          (("model", .str model) :: ("messages", .arr messages) :: further) rest)) =
        .ok converted ∧ converted.isText = true) ↔
      Utf8.valid model = true ∧ ∃ messages, computed = .ok messages ∧
        ∀ m ∈ messages, m.isText = true := by
  constructor
  · rintro ⟨converted, hconverted, htext⟩
    obtain ⟨messages, hmessages, hconverted⟩ := bind_eq_ok_iff.mp hconverted
    cases hconverted
    have hmodel : (objectWith (("model", .str model) :: ("messages", .arr messages) :: further)
        rest).field? "model" = some (.str model) :=
      field?_objectWith_of_nodup (by exact hkeys) "model"
    have hitems : (objectWith (("model", .str model) :: ("messages", .arr messages) :: further)
        rest).field? "messages" = some (.arr messages) :=
      field?_objectWith_of_nodup (by exact hkeys) "messages"
    exact ⟨isText_field? htext hmodel, messages, hmessages,
      itemsAreText_iff.mp (isText_field? htext hitems)⟩
  · rintro ⟨hmodel, messages, hmessages, htext⟩
    refine ⟨_, bind_eq_ok_iff.mpr ⟨messages, hmessages, rfl⟩, isText_objectWith ?_ hrest⟩
    simp only [List.forall_mem_cons]
    exact ⟨⟨rfl, hmodel⟩, ⟨rfl, itemsAreText_iff.mpr htext⟩, hfurther⟩

theorem fieldIsText_number? {request : Json} {key source : Bytes} (hkey : Utf8.valid key = true) :
    ∀ j ∈ number? request source, FieldIsText (key, j) :=
  fun _ hj => ⟨hkey, isText_of_isNumber (Option.mem_filter_iff.mp hj).2⟩

theorem fieldIsText_ite {p : Prop} [Decidable p] {key : Bytes} {j : Json}
    (h : FieldIsText (key, j)) : ∀ j' ∈ (if p then some j else none), FieldIsText (key, j') := by
  intro j' hj'
  obtain ⟨-, hj'⟩ := Option.ite_none_right_eq_some.mp hj'
  cases hj'
  exact h

theorem exists_claudeBody_iff (defaultMaxTokens : Int) (hvalue : value.isText = true) :
    (∃ converted, claudeBody value history model defaultMaxTokens = .ok converted ∧
        converted.isText = true) ↔
      Utf8.valid model = true ∧ ∃ items, Item.ofInput (Asked.ofJson value).input = .ok items ∧
        ∀ i ∈ history ++ items, i.Sendable .claude := by
  rw [← exists_claudeMessages_iff]
  refine exists_body_iff (by simp only [List.map_cons, List.map_nil]; decide)
    (List.forall_mem_singleton.mpr ⟨rfl, rfl⟩) ?_
  simp only [List.forall_mem_cons]
  refine ⟨?_, fieldIsText_ite ⟨rfl, rfl⟩, fieldIsText_number? rfl, fieldIsText_number? rfl,
    List.forall_mem_nil _⟩
  intro j hj
  obtain ⟨-, hj⟩ := Option.ite_none_left_eq_some.mp hj
  cases hj
  exact ⟨rfl, valid_stringField hvalue⟩

theorem exists_openaiBody_iff (hvalue : value.isText = true) :
    (∃ converted, openaiBody value history model = .ok converted ∧ converted.isText = true) ↔
      Utf8.valid model = true ∧ ∃ items, Item.ofInput (Asked.ofJson value).input = .ok items ∧
        ∀ i ∈ history ++ items, i.Sendable .openai := by
  rw [← exists_chatMessages_iff (valid_stringField hvalue)]
  refine exists_body_iff (by simp only [List.map_cons, List.map_nil]; decide)
    (List.forall_mem_nil _) ?_
  simp only [List.forall_mem_cons]
  exact ⟨fieldIsText_ite ⟨rfl, rfl⟩, fieldIsText_ite ⟨rfl, rfl⟩, fieldIsText_number? rfl,
    fieldIsText_number? rfl, fieldIsText_number? rfl, List.forall_mem_nil _⟩

/-- What is computed is sent when it can be written. -/
theorem exists_written_iff {entries : List LogEntry} {computed : Except RelayError Json}
    {endpoint : Bytes} :
    (∃ built, Attempt.result (do
        Attempt.notes entries
        let converted ← computed
        let body ← converted.dump
        pure (endpoint, body)) = .ok built) ↔
      ∃ converted, computed = .ok converted ∧ converted.isText = true := by
  simp only [Attempt.bind_eq, Attempt.result_andThen]
  constructor
  · rintro ⟨built, hbuilt⟩
    obtain ⟨_, -, hbuilt⟩ := bind_eq_ok_iff.mp hbuilt
    obtain ⟨converted, hconverted, hbuilt⟩ := bind_eq_ok_iff.mp hbuilt
    obtain ⟨text, hdump, -⟩ := bind_eq_ok_iff.mp hbuilt
    exact ⟨converted, hconverted, (of_dump hdump).1⟩
  · rintro ⟨converted, hconverted, htext⟩
    exact ⟨_, bind_eq_ok_iff.mpr ⟨(), rfl, bind_eq_ok_iff.mpr ⟨converted, hconverted,
      bind_eq_ok_iff.mpr ⟨_, dump_of_isText htext, rfl⟩⟩⟩⟩

theorem exists_target_iff (hdialect : dialect = .claude ∨ dialect = .openai)
    (hvalue : value.isText = true) :
    (∃ built, (target dialect value body backend sessions options).result = .ok built) ↔
      Utf8.valid (backend.redirect (Asked.ofJson value).model) = true ∧
        ∃ items, Item.ofInput (Asked.ofJson value).input = .ok items ∧
          ∀ i ∈ sessions.history (Asked.ofJson value).previousId ++ items, i.Sendable dialect := by
  obtain rfl | rfl := hdialect
  · exact exists_written_iff.trans (exists_claudeBody_iff options.defaultMaxTokens hvalue)
  · exact exists_written_iff.trans (exists_openaiBody_iff hvalue)

/-- **A request is built** exactly when its body is an object with an input that can be read, every
    item of the history and of the input can be sent, and the backend's model can be named. -/
theorem request_builds_iff (hdialect : dialect = .claude ∨ dialect = .openai) :
    (∃ outbound, (request dialect inbound backend apiKey sessions options).result =
        .ok outbound) ↔
      ∃ value items, parseObject inbound.body "Responses request" = .ok value ∧
        Item.ofInput (Asked.ofJson value).input = .ok items ∧
        Utf8.valid (backend.redirect (Asked.ofJson value).model) = true ∧
        ∀ i ∈ sessions.history (Asked.ofJson value).previousId ++ items, i.Sendable dialect := by
  constructor
  · rintro ⟨outbound, hbuilt⟩
    obtain ⟨value, endpoint, hvalue, htarget⟩ := of_request hbuilt
    obtain ⟨hmodel, items, hitems, hsendable⟩ :=
      (exists_target_iff hdialect (isText_of_parse? (of_parseObject hvalue).1)).mp ⟨_, htarget⟩
    exact ⟨value, items, hvalue, hitems, hmodel, hsendable⟩
  · rintro ⟨value, items, hvalue, hitems, hmodel, hsendable⟩
    obtain ⟨built, hbuilt⟩ : ∃ built,
        (target dialect value inbound.body backend sessions options).result = .ok built :=
      (exists_target_iff hdialect (isText_of_parse? (of_parseObject hvalue).1)).mpr
        ⟨hmodel, items, hitems, hsendable⟩
    simp only [request, Attempt.bind_eq, Attempt.result_andThen]
    exact ⟨_, bind_eq_ok_iff.mpr ⟨value, hvalue, bind_eq_ok_iff.mpr ⟨built, hbuilt, rfl⟩⟩⟩

/-! ## 3. What a store keeps -/

/-- An exchange as it is recorded. -/
structure Recorded where
  /-- The session that it went to. -/
  session : Bytes
  input : List Item
  /-- What the backend replied. -/
  reply : Json

namespace Recorded

/-- The items that the session has of it. -/
def items (dialect : Dialect) (r : Recorded) : List Item :=
  r.input ++ (itemsOf dialect r.reply).map fun item => { item with role := "assistant" }

/-- Whether a Claude reply has a text block without a text. -/
def HasBlankText (r : Recorded) : Prop :=
  ∃ block ∈ (r.reply.arrayField? "content").getD [],
    block.stringField "type" = "text" ∧ block.stringField "text" = []

instance (r : Recorded) : Decidable r.HasBlankText :=
  inferInstanceAs (Decidable (∃ block ∈ (r.reply.arrayField? "content").getD [],
    block.stringField "type" = "text" ∧ block.stringField "text" = []))

variable {r : Recorded}

theorem ofText_nil_mem_iff : Item.ofText [] ∈ itemsOf .claude r.reply ↔ r.HasBlankText := by
  simp [itemsOf, Reply.itemsOfClaude, HasBlankText, Item.ofText]

/-- What a reply leaves behind can be sent, but for a text block without a text to Claude. -/
theorem sendable_output_iff (hdialect : dialect = .claude ∨ dialect = .openai)
    (hreply : r.reply.isText = true) :
    (∀ item ∈ itemsOf dialect r.reply,
        Item.Sendable dialect { item with role := "assistant" }) ↔
      (dialect = .claude → ¬ r.HasBlankText) := by
  constructor
  · rintro h rfl hblank
    have hempty := h _ (ofText_nil_mem_iff.mpr hblank)
    exact (Item.sendable_ofTextAs_iff (.inl rfl) rfl rfl).mp hempty rfl rfl
  · intro h item hitem
    obtain ⟨part, key, rfl, hpart⟩ := itemsOf_eq dialect r.reply item hitem
    refine (Item.sendable_ofTextAs_iff hdialect rfl (valid_stringField (hpart hreply))).mpr ?_
    rintro rfl hempty
    rw [hempty] at hitem
    exact h rfl (ofText_nil_mem_iff.mp hitem)

/-- All of an exchange can be sent again, if its input can and the reply has a text throughout. -/
theorem sendable_iff (hdialect : dialect = .claude ∨ dialect = .openai)
    (hinput : ∀ i ∈ r.input, i.Sendable dialect) (hreply : r.reply.isText = true) :
    (∀ i ∈ r.items dialect, i.Sendable dialect) ↔ (dialect = .claude → ¬ r.HasBlankText) := by
  rw [items, List.forall_mem_append, and_iff_right hinput, List.forall_mem_map]
  exact sendable_output_iff hdialect hreply

end Recorded

/-- The items that a session has of what was recorded. -/
def itemsIn (dialect : Dialect) (log : List Recorded) (id : Bytes) : List Item :=
  (log.filter (·.session = id)).flatMap (Recorded.items dialect)

section ItemsIn

variable {log : List Recorded} {id : Bytes}

theorem mem_itemsIn {i : Item} :
    i ∈ itemsIn dialect log id ↔ ∃ r ∈ log, r.session = id ∧ i ∈ r.items dialect := by
  simp [itemsIn, and_assoc]

theorem itemsIn_eq_nil (h : ∀ r ∈ log, r.session ≠ id) : itemsIn dialect log id = [] := by
  rw [itemsIn, List.filter_eq_nil_iff.mpr (by simpa using h)]
  rfl

theorem itemsIn_concat (log : List Recorded) (r : Recorded) (id : Bytes) :
    itemsIn dialect (log ++ [r]) id =
      itemsIn dialect log id ++ if r.session = id then r.items dialect else [] := by
  rw [itemsIn, List.filter_append, List.flatMap_append]
  by_cases h : r.session = id <;> simp [itemsIn, h]

end ItemsIn

variable {before : SessionStore}

namespace Exchanged

/-- What is recorded of an exchange. -/
def recorded (e : Exchanged dialect before) : Recorded where
  session := e.resumed.1.id
  input := e.turn.input
  reply := (parse? e.body).getD .null

theorem items_recorded (e : Exchanged dialect before) :
    e.recorded.items dialect = e.turn.items := by
  have houtput : itemsOf dialect e.recorded.reply =
      ((parse? e.body).map (itemsOf dialect)).getD [] := by
    rw [recorded]
    cases parse? e.body with
    | none => cases dialect <;> rfl
    | some reply => rfl
  rw [Recorded.items, houtput]
  rfl

theorem isText_recorded (e : Exchanged dialect before) : e.recorded.reply.isText = true := by
  rw [recorded]
  cases h : parse? e.body with
  | none => rfl
  | some reply => exact isText_of_parse? h

/-- The input of an exchange was sent, so that it can be sent again. -/
theorem sendable_input (e : Exchanged dialect before)
    (hdialect : dialect = .claude ∨ dialect = .openai) :
    ∀ i ∈ e.recorded.input, i.Sendable dialect := by
  obtain ⟨backend, apiKey, earlier, options, hbuilt⟩ := e.built
  obtain ⟨outbound, hbuilt⟩ := exists_of_isSome_toOption hbuilt
  obtain ⟨value, items, hvalue, hitems, -, hsendable⟩ :=
    (request_builds_iff hdialect).mp ⟨outbound, hbuilt⟩
  have hinput : e.recorded.input = items := by
    show (Item.ofInput (askedOf e.inbound).input).toOption.getD [] = items
    rw [askedOf_eq hvalue, hitems]
    rfl
  rw [hinput]
  exact (List.forall_mem_append.mp hsendable).2

/-- The reply of an exchange that is stored belongs to the session that the exchange went to. -/
theorem find?_replyId (e : Exchanged dialect before) (hsound : before.Sound)
    (hstore : e.asked.store = true) (hdialect : dialect = .claude ∨ dialect = .openai) :
    ∃ session, e.after.find? e.replyId = some session ∧
      Table.find? e.after.sessions e.recorded.session = some session := by
  obtain ⟨changes, hafter, -, hreplyIds, hnamed⟩ := e.stored hstore hdialect
  have hfind : Table.find? e.resumed.2.sessions e.resumed.1.id = some e.resumed.1 :=
    hsound.find?_resume ..
  have hsession : Table.find? e.after.sessions e.resumed.1.id =
      some (e.resumed.1.changed changes) := by
    rw [hafter, SessionStore.find?_sessions_changed, if_pos rfl, hfind]
    rfl
  have howner : Table.find? e.after.owners e.replyId = some e.resumed.1.id := by
    rw [hafter, SessionStore.find?_owners_changed, hfind, hreplyIds]
    exact if_pos ⟨List.mem_singleton_self _, rfl⟩
  exact ⟨_, SessionStore.find?_eq_some.mpr ⟨hnamed, _, howner, hsession⟩, hsession⟩

end Exchanged

/-- The stores that stored exchanges with backends of a dialect have filled, and nothing else, with
    what was recorded on the way. -/
inductive Filled (dialect : Dialect) : List Recorded → SessionStore → Prop where
  | empty : Filled dialect [] {}
  | exchange {log : List Recorded} {before : SessionStore} (h : Filled dialect log before)
      (e : Exchanged dialect before) (hstore : e.asked.store = true) :
      Filled dialect (log ++ [e.recorded]) e.after

/-- **The invariant of such a store.** It does not say that the output can be sent: a reply may have
    a text block without a text. -/
structure Keeps (dialect : Dialect) (log : List Recorded) (store : SessionStore) : Prop where
  sound : store.Sound
  /-- Each session has the items of what was recorded in it. -/
  items : ∀ {id session}, Table.find? store.sessions id = some session →
    session.items = itemsIn dialect log id
  there : ∀ r ∈ log, (Table.find? store.sessions r.session).isSome
  inputs : ∀ r ∈ log, ∀ i ∈ r.input, i.Sendable dialect
  replies : ∀ r ∈ log, r.reply.isText = true

variable {log : List Recorded}

/-- A session that is resumed is kept, and a new one has no items yet. -/
theorem Keeps.resume {store : SessionStore} (h : Keeps dialect log store) {replyId freshId : Bytes}
    (hunused : store.find? replyId = none → Table.find? store.sessions freshId = none) :
    Keeps dialect log (store.resume replyId freshId).2 := by
  rcases store.resume_cases replyId freshId with ⟨session, -, hresume⟩ | ⟨hnone, hresume⟩
  · rw [hresume]
    exact h
  · have hfree := hunused hnone
    rw [hresume]
    refine ⟨h.sound.insert freshId, fun {id session} hfind => ?_, fun r hr => ?_, h.inputs,
      h.replies⟩
    · obtain ⟨rfl, rfl⟩ | hfind := SessionStore.before_of_find?_insert hfind
      · refine (itemsIn_eq_nil fun r hr hsession => ?_).symm
        have hthere := h.there r hr
        rw [hsession, hfree] at hthere
        cases hthere
      · exact h.items hfind
    · show (Table.find? (Table.insert store.sessions freshId _) r.session).isSome
      rw [Table.find?_insert]
      split
      · rfl
      · exact h.there r hr

/-- An exchange that is stored adds its items to its session. -/
theorem Keeps.exchange (h : Keeps dialect log before)
    (hdialect : dialect = .claude ∨ dialect = .openai) (e : Exchanged dialect before)
    (hstore : e.asked.store = true) : Keeps dialect (log ++ [e.recorded]) e.after := by
  obtain ⟨changes, hafter, hitems, -⟩ := e.stored hstore hdialect
  rw [hafter]
  have hresumed : Keeps dialect log e.resumed.2 := h.resume e.unused
  have hfind : Table.find? e.resumed.2.sessions e.resumed.1.id = some e.resumed.1 :=
    h.sound.find?_resume ..
  refine ⟨hresumed.sound.changed .., fun {id session} hsession => ?_, ?_, ?_, ?_⟩
  · rw [SessionStore.find?_sessions_changed] at hsession
    rw [itemsIn_concat]
    by_cases hid : e.recorded.session = id
    · subst hid
      rw [if_pos (show e.recorded.session = e.resumed.1.id from rfl)] at hsession
      rw [if_pos rfl]
      obtain ⟨resumed, hresume, rfl⟩ := Option.map_eq_some_iff.mp hsession
      rw [Session.items_changed, hresumed.items hresume, hitems, e.items_recorded]
    · rw [if_neg fun hsame => hid hsame.symm] at hsession
      rw [if_neg hid, List.append_nil]
      exact hresumed.items hsession
  · refine List.forall_mem_append.mpr ⟨fun r hr => ?_, List.forall_mem_singleton.mpr ?_⟩ <;>
      rw [SessionStore.isSome_sessions_changed]
    · exact hresumed.there r hr
    · exact Option.isSome_of_eq_some hfind
  · exact List.forall_mem_append.mpr
      ⟨h.inputs, List.forall_mem_singleton.mpr (e.sendable_input hdialect)⟩
  · exact List.forall_mem_append.mpr ⟨h.replies, List.forall_mem_singleton.mpr e.isText_recorded⟩

/-- **The invariant holds of every store that was filled so.** -/
theorem Filled.keeps {store : SessionStore} (hdialect : dialect = .claude ∨ dialect = .openai)
    (h : Filled dialect log store) : Keeps dialect log store := by
  induction h with
  | empty => exact ⟨SessionStore.sound_empty, nofun, nofun, nofun, nofun⟩
  | exchange _ e hstore ih => exact ih.exchange hdialect e hstore

/-- The history of a reply is what was recorded in its session. -/
theorem Filled.history_eq (hdialect : dialect = .claude ∨ dialect = .openai)
    (h : Filled dialect log before) (e : Exchanged dialect before) (hstore : e.asked.store = true) :
    e.after.history e.replyId = itemsIn dialect (log ++ [e.recorded]) e.recorded.session := by
  obtain ⟨session, hfind, hsession⟩ := e.find?_replyId (h.keeps hdialect).sound hstore hdialect
  rw [SessionStore.history, hfind]
  exact ((h.exchange e hstore).keeps hdialect).items hsession

/-- What was recorded in a session can be sent again when no reply there has an empty text block. -/
theorem Keeps.sendable_iff {store : SessionStore} (h : Keeps dialect log store)
    (hdialect : dialect = .claude ∨ dialect = .openai) (id : Bytes) :
    (∀ i ∈ itemsIn dialect log id, i.Sendable dialect) ↔
      (dialect = .claude → ∀ r ∈ log, r.session = id → ¬ r.HasBlankText) := by
  constructor
  · intro hall hclaude r hr hid
    refine (Recorded.sendable_iff hdialect (h.inputs r hr) (h.replies r hr)).mp ?_ hclaude
    exact fun i hi => hall i (mem_itemsIn.mpr ⟨r, hr, hid, hi⟩)
  · intro hblank i hi
    obtain ⟨r, hr, hid, hi⟩ := mem_itemsIn.mp hi
    exact (Recorded.sendable_iff hdialect (h.inputs r hr) (h.replies r hr)).mpr
      (fun hclaude => hblank hclaude r hr hid) i hi

/-! ## 4. Follow-ups -/

/-- The failure of an item of type `text` that has no text. -/
def emptyText : RelayError :=
  .invalid "text item content must not be empty" "content" []

theorem eq_emptyText {role text : Bytes} {failure : RelayError}
    (h : (Item.ofTextAs role text).claudeMessage? = .error failure) : failure = emptyText := by
  cases text with
  | nil => exact (Except.error.inj h).symm
  | cons b bs => cases h

/-- A session fails at the text block without a text, since all else in it can be sent. -/
theorem Keeps.error_of_blank {store : SessionStore} (h : Keeps .claude log store) {id : Bytes}
    {r : Recorded} (hr : r ∈ log) (hid : r.session = id) (hblank : r.HasBlankText) :
    (itemsIn .claude log id).mapM Item.claudeMessage? = .error emptyText := by
  cases hmessages : (itemsIn .claude log id).mapM Item.claudeMessage? with
  | ok found =>
    have hempty : Item.ofTextAs "assistant" [] ∈ itemsIn .claude log id := by
      refine mem_itemsIn.mpr ⟨r, hr, hid, List.mem_append_right _ ?_⟩
      exact List.mem_map_of_mem (Recorded.ofText_nil_mem_iff.mpr hblank)
    obtain ⟨m, -, hm⟩ := exists_mem_of_mem_mapM hmessages hempty
    cases hm
  | error failure =>
    obtain ⟨i, hi, hfail⟩ := exists_mem_of_mapM_error hmessages
    obtain ⟨r, hr, -, hi⟩ := mem_itemsIn.mp hi
    rcases List.mem_append.mp hi with hi | hi
    · obtain ⟨m, hm, -⟩ := h.inputs r hr i hi
      cases hm.symm.trans hfail
    · obtain ⟨item, hitem, rfl⟩ := List.mem_map.mp hi
      obtain ⟨part, key, rfl, -⟩ := itemsOf_eq .claude r.reply item hitem
      rw [eq_emptyText hfail]

/-- A history that cannot be sent fails the request. -/
theorem request_of_history_error {failure : RelayError}
    (hvalue : parseObject inbound.body "Responses request" = .ok value)
    (h : (sessions.history (Asked.ofJson value).previousId).mapM Item.claudeMessage? =
      .error failure) :
    (request .claude inbound backend apiKey sessions options).result = .error failure := by
  simp only [request, target, Attempt.bind_eq, Attempt.result_andThen]
  refine bind_eq_error_iff.mpr (.inr ⟨value, hvalue, bind_eq_error_iff.mpr (.inl ?_)⟩)
  refine bind_eq_error_iff.mpr (.inr ⟨(), rfl, bind_eq_error_iff.mpr (.inl ?_)⟩)
  exact bind_eq_error_iff.mpr (.inl (bind_eq_error_iff.mpr (.inl h)))

variable {text : Bytes}

/-- **A stored conversation can be continued** with any text, as long as the backend's model can be
    named and no reply of a Claude backend in the session has a text block without a text. From such
    a reply on, every follow-up in the session fails. -/
theorem stored_conversation_continues (hdialect : dialect = .claude ∨ dialect = .openai)
    (hfilled : Filled dialect log before) (e : Exchanged dialect before)
    (hstore : e.asked.store = true)
    (hvalue : parseObject inbound.body "Responses request" = .ok value)
    (hprevious : value.stringField "previous_response_id" = e.replyId)
    (hinput : value.field? "input" = some (.str text)) (htext : text ≠ []) :
    ((∃ outbound, (request dialect inbound backend apiKey e.after options).result =
        .ok outbound) ↔
      Utf8.valid (backend.redirect (value.stringField "model")) = true ∧
        (dialect = .claude → ∀ r ∈ log ++ [e.recorded], r.session = e.recorded.session →
          ¬ r.HasBlankText)) ∧
    ∀ r ∈ log ++ [e.recorded], r.session = e.recorded.session → r.HasBlankText →
      dialect = .claude →
        (request dialect inbound backend apiKey e.after options).result = .error emptyText := by
  have hkeeps := (hfilled.exchange e hstore).keeps hdialect
  have hread : Item.ofInput (Asked.ofJson value).input = .ok [Item.ofText text] := by
    show Item.ofInput ((value.field? "input").getD .null) = _
    rw [hinput]
    rfl
  have hnew : (Item.ofText text).Sendable dialect :=
    (Item.sendable_ofTextAs_iff hdialect rfl
      (isText_field? (isText_of_parse? (of_parseObject hvalue).1) hinput)).mpr fun _ => htext
  have hhistory : e.after.history (Asked.ofJson value).previousId =
      itemsIn dialect (log ++ [e.recorded]) e.recorded.session :=
    (congrArg e.after.history hprevious).trans (hfilled.history_eq hdialect e hstore)
  constructor
  · rw [request_builds_iff hdialect, ← hkeeps.sendable_iff hdialect, ← hhistory]
    constructor
    · rintro ⟨value', items, hvalue', -, hmodel, hsendable⟩
      cases hvalue.symm.trans hvalue'
      exact ⟨hmodel, (List.forall_mem_append.mp hsendable).1⟩
    · rintro ⟨hmodel, hsendable⟩
      exact ⟨value, _, hvalue, hread, hmodel,
        List.forall_mem_append.mpr ⟨hsendable, List.forall_mem_singleton.mpr hnew⟩⟩
  · rintro r hr hsession hblank rfl
    refine request_of_history_error hvalue ?_
    rw [hhistory]
    exact hkeeps.error_of_blank hr hsession hblank

/-- A conversation goes on beside one that a reply without a text holds up. -/
theorem stored_conversation_continues_beside_blank :
    let ask (body : Bytes) : ClientRequest := ⟨"POST", "/v1/responses", [], [], body⟩
    let hello := ask "\x7b\"input\":\"hello\"\x7d"
    let more := ask ("\x7b\"input\":\"more\",\"previous_response_id\":\"" ++ Identifier.reply 1 ++
      "\"\x7d")
    let claude : Backend := ⟨"b", .claude, "https://api.example", [], ["k"], []⟩
    let blank : Bytes := "\x7b\"content\":[\x7b\"type\":\"text\",\"text\":\"\"\x7d]\x7d"
    let hi : Bytes := "\x7b\"content\":[\x7b\"type\":\"text\",\"text\":\"hi\"\x7d]\x7d"
    let first := reply .claude (askedOf hello) blank {} 0
    let second := reply .claude (askedOf hello) hi first.1 1
    ∃ outbound, (request .claude more claude "k" second.1 default).result = .ok outbound := by
  intro ask hello more claude blank hi first second
  let held : Exchanged .claude {} :=
    { inbound := hello
      body := blank
      answer := first.2.result.toOption.getD []
      fresh := 0
      built := ⟨claude, "k", {}, default, by decide +kernel⟩
      replied := by decide +kernel
      unused := fun _ => rfl }
  let going : Exchanged .claude held.after :=
    { inbound := hello
      body := hi
      answer := second.2.result.toOption.getD []
      fresh := 1
      built := ⟨claude, "k", {}, default, by decide +kernel⟩
      replied := by decide +kernel
      unused := fun _ => by decide +kernel }
  have hheld : Filled .claude ([] ++ [held.recorded]) held.after :=
    Filled.empty.exchange held (by decide +kernel)
  have hmore : (parseObject more.body "Responses request").toOption.map (fun value =>
      (value.stringField "previous_response_id", value.field? "input",
        Utf8.valid (claude.redirect (value.stringField "model")))) =
      some (going.replyId, some (.str "more"), true) := by decide +kernel
  obtain ⟨value, hvalue, hfields⟩ := exists_of_toOption_map hmore
  obtain ⟨hprevious, hfields⟩ := Prod.mk.inj hfields
  obtain ⟨hinput, hmodel⟩ := Prod.mk.inj hfields
  refine (stored_conversation_continues (.inl rfl) hheld going (by decide +kernel) hvalue hprevious
    hinput (by decide)).1.mpr ⟨hmodel, fun _ => ?_⟩
  decide +kernel

/-- A reply without a text, recorded like any other, holds up its session. -/
theorem blank_reply_holds_up_session :
    let ask (body : Bytes) : ClientRequest := ⟨"POST", "/v1/responses", [], [], body⟩
    let hello := ask "\x7b\"input\":\"hello\"\x7d"
    let more := ask ("\x7b\"input\":\"more\",\"previous_response_id\":\"" ++ Identifier.reply 0 ++
      "\"\x7d")
    let claude : Backend := ⟨"b", .claude, "https://api.example", [], ["k"], []⟩
    let blank : Bytes := "\x7b\"content\":[\x7b\"type\":\"text\",\"text\":\"\"\x7d]\x7d"
    let first := reply .claude (askedOf hello) blank {} 0
    (request .claude hello claude "k" {} default).result.toOption.isSome ∧
      first.2.result.toOption.map idOf = some (Identifier.reply 0) ∧
      (request .claude more claude "k" first.1 default).result = .error emptyText := by
  decide +kernel

end RepliesClient

end ChatRelay
