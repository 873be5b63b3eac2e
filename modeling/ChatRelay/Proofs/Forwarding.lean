import ChatRelay.Proofs.Recordings
import ChatRelay.Proofs.RepliesBridge
import ChatRelay.Relay

/-!
# Forwarding and the sessions

A relay that forwards a request changes its sessions in the last step only, when the reply is there
and nothing can fail any more. A request that fails, for whatever reason, leaves the relay as it was
(`forward_keeps_sessions`); so does every request whose exchange is not to be stored.

All that a reply can need of the sessions is the name of the latest reply of one of them. `Nameable`
says that such a name is UTF-8; it is an INVARIANT of the relay.
-/

namespace ChatRelay

open Json

/-! ## 1. Sessions whose replies can be named -/

namespace SessionStore

/-- The latest reply of each session has an id that is UTF-8. -/
def Nameable (store : SessionStore) : Prop :=
  ∀ id session, Table.find? store.sessions id = some session →
    Utf8.valid session.lastReplyId = true

variable {store : SessionStore} {replyId freshId id : Bytes}

theorem nameable_empty : Nameable {} := nofun

theorem Nameable.change (h : store.Nameable) {c : Change}
    (hc : ∀ replyId ∈ c.replyId?, Utf8.valid replyId = true) (id : Bytes) :
    (store.change id c).Nameable := by
  intro id' session hfind
  obtain ⟨before, hbefore, rfl | rfl⟩ := before_of_find?_change hfind
  · cases c with
    | append item tokens => exact h id' before hbefore
    | recordReply replyId => exact hc replyId rfl
  · exact h id' session hbefore

theorem Nameable.changed (h : store.Nameable) {changes : List Change}
    (hchanges : ∀ replyId ∈ changes.filterMap Change.replyId?, Utf8.valid replyId = true)
    (id : Bytes) : (store.changed id changes).Nameable := by
  induction changes generalizing store with
  | nil => exact h
  | cons c changes ih =>
    have hreply : ∀ replyId ∈ c.replyId?, Utf8.valid replyId = true := fun replyId hreplyId =>
      hchanges replyId (List.mem_filterMap.mpr ⟨c, List.mem_cons_self, hreplyId⟩)
    refine ih (h.change hreply id) fun replyId hmem => hchanges replyId ?_
    exact ((List.sublist_cons_self c changes).filterMap _).mem hmem

theorem Nameable.resume (h : store.Nameable) (replyId freshId : Bytes) :
    Utf8.valid (store.resume replyId freshId).1.lastReplyId = true ∧
      (store.resume replyId freshId).2.Nameable := by
  rcases resume_cases store replyId freshId with ⟨session, hfind, heq⟩ | ⟨-, heq⟩
  · obtain ⟨-, id, -, hsession⟩ := find?_eq_some.mp hfind
    rw [heq]
    exact ⟨h id session hsession, h⟩
  · rw [heq]
    refine ⟨rfl, ?_⟩
    intro id session hfind
    obtain ⟨-, rfl⟩ | hfind := before_of_find?_insert hfind
    · rfl
    · exact h id session hfind

end SessionStore

/-! ## 2. Clients of the Responses dialect -/

namespace RepliesClient

variable {dialect : Dialect} {asked : Asked} {body : Bytes} {sessions : SessionStore} {fresh : Nat}
  {input : List Item}

/-- A reply that fails leaves the sessions alone. -/
theorem sessions_reply_of_error (hinput : Item.ofInput asked.input = .ok input)
    (hprevious : Utf8.valid asked.previousId = true) (hsessions : sessions.Nameable)
    {e : RelayError} (h : (reply dialect asked body sessions fresh).2.result = .error e) :
    (reply dialect asked body sessions fresh).1 = sessions := by
  cases hobject : replyObject dialect body asked.previousId (Identifier.reply fresh) with
  | error e => rw [reply_of_error hobject]
  | ok object =>
    obtain ⟨whole, -, -, hresult⟩ := exists_result_reply hobject hinput hprevious
      (hsessions.resume asked.previousId (Identifier.session fresh)).1
    rw [hresult] at h
    cases h

theorem nameable_reply (hprevious : Utf8.valid asked.previousId = true)
    (hsessions : sessions.Nameable) (dialect : Dialect) (body : Bytes) (fresh : Nat) :
    (reply dialect asked body sessions fresh).1.Nameable := by
  cases hobject : replyObject dialect body asked.previousId (Identifier.reply fresh) with
  | error e =>
    rw [reply_of_error hobject]
    exact hsessions
  | ok object =>
    cases hstore : asked.store with
    | false =>
      rw [sessions_reply_of_unstored hstore]
      exact hsessions
    | true =>
      have htext := (readable_replyObject hobject hprevious (Identifier.valid_reply fresh)).isText
      rw [(reply_of_stored hobject hstore sessions).1,
        Recording.store_record ⟨asked, object, Identifier.session fresh⟩]
      refine (hsessions.resume ..).2.changed (fun replyId hmem => ?_) _
      rw [Recording.replyId_of_mem hmem]
      exact valid_stringField htext

end RepliesClient

/-! ## 3. The relay -/

namespace Relay

variable {relay : Relay} {client : Dialect} {inbound : ClientRequest} {bridge : Bridge}
  {request : BackendRequest}

/-- A bridge that is ready serves a client of the Responses dialect, whose request could be read, or
    has nothing to do with the sessions. -/
theorem bridge_cases (h : (relay.prepare client inbound).result = .ok (bridge, request)) :
    (client = .responses ∧ ∃ value input,
      parseObject inbound.body "Responses request" = .ok value ∧
        Item.ofInput (RepliesClient.Asked.ofJson value).input = .ok input ∧
        bridge = .repliesTo relay.backend.dialect (.ofJson value)) ∨
    ∀ body sessions fresh, (bridge.reply body sessions fresh).1 = sessions := by
  simp only [prepare, Attempt.bind_eq, Attempt.result_andThen] at h
  obtain ⟨first, hfirst, h⟩ := bind_eq_ok_iff.mp h
  obtain ⟨key, -, h⟩ := bind_eq_ok_iff.mp h
  obtain ⟨built, hbuilt, h⟩ := bind_eq_ok_iff.mp h
  cases h
  cases client with
  | claude =>
    refine .inr fun body sessions fresh => ?_
    cases hdialect : relay.backend.dialect <;> rw [hdialect] at hfirst <;> cases hfirst <;> rfl
  | gemini =>
    cases hfirst
    exact .inr fun body sessions fresh => rfl
  | openai => cases hfirst
  | responses =>
    cases hfirst
    obtain ⟨value, endpoint, hvalue, htarget⟩ := RepliesClient.of_request hbuilt
    obtain ⟨input, hinput⟩ := RepliesClient.exists_input_of_target htarget
    refine .inl ⟨rfl, value, input, hvalue, hinput, ?_⟩
    rw [Bridge.remember, RepliesClient.Asked.ofRequest, hvalue]

/-- What becomes of a request: it fails before anything is sent, it is sent and fails, or the bridge
    has its reply. -/
theorem forward_cases (relay : Relay) (client : Dialect) (inbound : ClientRequest)
    (send : BackendRequest → Except RelayError BackendReply) (fresh : Nat) :
    let f := relay.forward client inbound send fresh
    (∃ e, (relay.prepare client inbound).result = .error e ∧
      f.relay = relay ∧ f.sent = [] ∧ f.attempt.result = .error e) ∨
    ∃ bridge request, (relay.prepare client inbound).result = .ok (bridge, request) ∧
      f.sent = [request] ∧
      ((∃ e, f.relay = relay ∧ f.attempt.result = .error e) ∨
        ∃ body, f.relay = { relay with sessions := (bridge.reply body relay.sessions fresh).1 } ∧
          f.attempt.result = (bridge.reply body relay.sessions fresh).2.result) := by
  intro f
  cases hprepared : (relay.prepare client inbound).result with
  | error e =>
    have hf : f = ⟨relay, [], ⟨(relay.prepare client inbound).log, .error e⟩⟩ := by
      simp only [f, forward, hprepared]
    rw [hf]
    exact .inl ⟨e, rfl, rfl, rfl, rfl⟩
  | ok ready =>
    obtain ⟨bridge, request⟩ := ready
    refine .inr ⟨bridge, request, rfl, ?_⟩
    cases hchecked : (do
      let reply ← send request
      checkStatus reply request.url
      Except.ok reply) with
    | error e =>
      have hf : f = ⟨relay, [request], ⟨(relay.prepare client inbound).log, .error e⟩⟩ := by
        simp only [f, forward, hprepared, hchecked]
      rw [hf]
      exact ⟨rfl, .inl ⟨e, rfl, rfl⟩⟩
    | ok reply =>
      have hf : f.relay = { relay with
            sessions := (bridge.reply reply.body relay.sessions fresh).1 } ∧
          f.sent = [request] ∧
          f.attempt.result = (bridge.reply reply.body relay.sessions fresh).2.result := by
        simp only [f, forward, hprepared, hchecked, and_self]
      exact ⟨hf.2.1, .inr ⟨reply.body, hf.1, hf.2.2⟩⟩

/-- What the reply of a bridge that is ready does to the sessions: nothing if it fails, and nothing
    but for a client of the Responses dialect that did not forbid it. -/
theorem reply_of_prepared (h : (relay.prepare client inbound).result = .ok (bridge, request))
    (hsessions : relay.sessions.Nameable) (body : Bytes) (fresh : Nat) :
    let replied := bridge.reply body relay.sessions fresh
    (∀ e, replied.2.result = .error e → replied.1 = relay.sessions) ∧
    (replied.1 ≠ relay.sessions → client = .responses ∧
      ∃ value, parseObject inbound.body "Responses request" = .ok value ∧
        value.field? "store" ≠ some (.bool false)) ∧
    replied.1.Nameable := by
  intro replied
  obtain ⟨hclient, value, input, hvalue, hinput, rfl⟩ | hapart := bridge_cases h
  · have hprevious : Utf8.valid (RepliesClient.Asked.ofJson value).previousId = true :=
      valid_stringField (isText_of_parse? (of_parseObject hvalue).1)
    refine ⟨fun e he => RepliesClient.sessions_reply_of_error hinput hprevious hsessions he,
      fun hne => ⟨hclient, value, hvalue, fun hstore => hne ?_⟩,
      RepliesClient.nameable_reply hprevious hsessions _ _ _⟩
    refine RepliesClient.sessions_reply_of_unstored ?_ ..
    show value.boolFieldD "store" true = false
    rw [boolFieldD, hstore]
  · have hsame : replied.1 = relay.sessions := hapart ..
    rw [hsame]
    exact ⟨fun _ _ => rfl, fun hne => absurd rfl hne, hsessions⟩

/-- **A request that fails leaves no trace.** A request is sent at most once, and not at all if it
    fails before; whenever it fails the relay is as it was. Sessions change only for a client of the
    Responses dialect that did not forbid it. The replies of the sessions can still be named
    then. -/
theorem forward_keeps_sessions (relay : Relay) (client : Dialect) (inbound : ClientRequest)
    (send : BackendRequest → Except RelayError BackendReply) (fresh : Nat)
    (h : relay.sessions.Nameable) :
    let f := relay.forward client inbound send fresh
    f.sent.length ≤ 1 ∧
    (∀ e, (relay.prepare client inbound).result = .error e →
      f.sent = [] ∧ f.attempt.result = .error e) ∧
    (∀ e, f.attempt.result = .error e → f.relay = relay) ∧
    (f.relay.sessions ≠ relay.sessions → client = .responses ∧
      ∃ value, parseObject inbound.body "Responses request" = .ok value ∧
        value.field? "store" ≠ some (.bool false)) ∧
    f.relay.sessions.Nameable := by
  intro f
  obtain ⟨e, hprepared, hrelay, hsent, hresult⟩ |
    ⟨bridge, request, hprepared, hsent, hsettled⟩ := forward_cases relay client inbound send fresh
  · refine ⟨by rw [hsent]; exact Nat.zero_le 1, fun e' he' => ⟨hsent, ?_⟩, fun _ _ => hrelay,
      fun hne => absurd (congrArg sessions hrelay) hne, ?_⟩
    · rw [hprepared] at he'
      cases he'
      exact hresult
    · rw [hrelay]
      exact h
  · have hready : ∀ e, (relay.prepare client inbound).result ≠ .error e := by
      intro e he
      rw [hprepared] at he
      cases he
    refine ⟨by rw [hsent]; exact Nat.le_refl 1, fun e he => absurd he (hready e), ?_⟩
    obtain ⟨e, hrelay, hresult⟩ | ⟨body, hrelay, hresult⟩ := hsettled
    · refine ⟨fun _ _ => hrelay, fun hne => absurd (congrArg sessions hrelay) hne, ?_⟩
      rw [hrelay]
      exact h
    · obtain ⟨hfailed, hchanged, hnameable⟩ := reply_of_prepared hprepared h body fresh
      rw [hrelay, hresult]
      refine ⟨fun e he => ?_, hchanged, hnameable⟩
      rw [hfailed e he]

/-- A reply is stored; the request that continues it is sent and lost, and leaves no trace. -/
theorem forward_keeps_sessions_lost :
    let backend : Backend := ⟨"b", .claude, "https://api.example", [], ["k"], []⟩
    let relay : Relay := { options := default, backend }
    let ask (body : Bytes) : ClientRequest := ⟨"POST", "/v1/responses", [], [], body⟩
    let hello := ask "\x7b\"model\":\"m\",\"input\":\"hello\"\x7d"
    let more := ask ("\x7b\"input\":\"more\",\"previous_response_id\":\"" ++ Identifier.reply 0 ++
      "\"\x7d")
    let answer : Bytes := "\x7b\"content\":[\x7b\"type\":\"text\",\"text\":\"hi\"\x7d]\x7d"
    let first := relay.forward .responses hello (fun _ => .ok ⟨200, answer⟩) 0
    let second := first.relay.forward .responses more (fun _ => .error .cancelled) 1
    first.relay.sessions.size = 1 ∧ second.sent.length = 1 ∧ second.relay = first.relay := by
  intro backend relay ask hello more answer first second
  have hsize : first.relay.sessions.size = 1 := by decide +kernel
  have hsent : second.sent.length = 1 := by decide +kernel
  have hlost : second.attempt.result.toOption.isSome = false := by decide +kernel
  -- from here on the two runs are not to be computed again
  have hfirst : relay.forward .responses hello (fun _ => .ok ⟨200, answer⟩) 0 = first := rfl
  have hsecond : first.relay.forward .responses more (fun _ => .error .cancelled) 1 = second := rfl
  have hstored := forward_keeps_sessions relay .responses hello (fun _ => .ok ⟨200, answer⟩) 0
    SessionStore.nameable_empty
  rw [hfirst] at hstored
  clear_value first
  have hkept := forward_keeps_sessions first.relay .responses more (fun _ => .error .cancelled) 1
    hstored.2.2.2.2
  rw [hsecond] at hkept
  clear_value second
  refine ⟨hsize, hsent, ?_⟩
  cases hresult : second.attempt.result with
  | error e => exact hkept.2.2.1 e hresult
  | ok answered =>
    rw [hresult] at hlost
    cases hlost

end Relay

end ChatRelay
