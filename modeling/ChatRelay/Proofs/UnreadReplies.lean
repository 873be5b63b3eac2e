import ChatRelay.Bridge.Basic
import ChatRelay.Proofs.Forwarding
import ChatRelay.Proofs.TextStates

/-!
# Replies that cannot be read

A bridge reads the reply of a backend and answers in the client's dialect. The reading fails unless
the body is an object; after that nothing can fail, whatever the fields of the object are, because
fields are read leniently, every string that was read is UTF-8, and the bridge adds only text to it.

* `Json.Unread` -- how a body fails that is no object;
* `Completion.isText_toClaude`, `Gemini.isText_responseOfClaude`, `Gemini.isText_responseOfOpenai`
  -- what is answered can be written;
* `Converts` -- a conversion that returns for objects and fails as unread for every other body:
  those of all clients;
* `Bridge.reply_fails_only_unread` -- so for every bridge whose request was built.
-/

namespace ChatRelay

open Json

/-! ## 1. Bodies that are no objects -/

namespace Json

variable {body context : Bytes} {j : Json} {e : RelayError}

/-- The failures of a body that is no object: it has a number that no double can hold, or it cannot
    be decoded. -/
inductive Unread (body : Bytes) : RelayError → Prop where
  | undecodable (message context : Bytes) (h : parse body ≠ .error .numberOutOfRange) :
      Unread body (.undecodable message context)
  | numberOutOfRange (h : parse body = .error .numberOutOfRange) :
      Unread body .numberOutOfRange

/-- Whether the text of a body denotes an object. -/
def ReadsAsObject (body : Bytes) : Prop :=
  ∃ fields, parse? body = some (.obj fields)

theorem parse_of_parse? (h : parse? body = some j) : parse body = .ok j := by
  rw [parse?] at h
  cases hparse : parse body with
  | ok value =>
    rw [hparse] at h
    cases h
    rfl
  | error fault =>
    rw [hparse] at h
    cases h

theorem parseObject_of_parse? {fields : List (Bytes × Json)}
    (h : parse? body = some (.obj fields)) (context : Bytes) :
    parseObject body context = .ok (.obj fields) := by
  rw [parseObject, parseBody, parse_of_parse? h]
  rfl

/-- **A body that is not read as an object** fails as such. -/
theorem unread_of_parseObject (h : parseObject body context = .error e) : Unread body e := by
  rw [parseObject, parseBody] at h
  cases hparse : parse body with
  | ok value =>
    rw [hparse] at h
    obtain h | ⟨_, hvalue, h⟩ := bind_eq_error_iff.mp h
    · cases h
    · split at h
      · cases h
      · cases h
        exact .undecodable _ _ fun hrange => nomatch hparse.symm.trans hrange
  | error fault =>
    rw [hparse] at h
    cases fault with
    | malformed =>
      cases h
      exact .undecodable _ _ fun hrange => nomatch hparse.symm.trans hrange
    | numberOutOfRange =>
      cases h
      exact .numberOutOfRange hparse

end Json

/-! ## 2. Answers that can be written -/

theorem Identifier.valid_message (n : Nat) : Utf8.valid (Identifier.message n) = true :=
  Utf8.valid_append rfl (Bytes.printable_ofNat _).ascii.valid

theorem Json.valid_of_string? {j : Json} {s : Bytes} (h : j.isText = true)
    (hs : j.string? = some s) : Utf8.valid s = true := by
  cases j with
  | str s' =>
    cases hs
    exact h
  | _ => cases hs

theorem Json.isText_set {j value : Json} {key : Bytes} (h : j.isText = true)
    (hkey : Utf8.valid key = true) (hvalue : value.isText = true) :
    (j.set key value).isText = true := by
  cases j with
  | obj fields =>
    refine fieldsAreText_iff.mpr fun field hfield => ?_
    rcases Table.mem_insert hfield with rfl | hfield
    · exact ⟨hkey, hvalue⟩
    · exact fieldsAreText_iff.mp h field hfield
  | _ => exact h

namespace ContentBlock

theorem isText_inputOrEmpty {input : Json} (h : input.isText = true) :
    (inputOrEmpty input).isText = true := by
  unfold inputOrEmpty
  split
  · rfl
  · exact h

theorem isText_text {t : Bytes} (h : Utf8.valid t = true) : (text t).toClaude.isText = true := by
  refine isText_object ?_
  simp only [List.forall_mem_cons]
  exact ⟨⟨rfl, rfl⟩, ⟨rfl, h⟩, List.forall_mem_nil _⟩

theorem isText_toolUse {id name : Bytes} {input : Json} (hid : Utf8.valid id = true)
    (hname : Utf8.valid name = true) (hinput : input.isText = true) :
    (toolUse id name input).toClaude.isText = true := by
  refine isText_object ?_
  simp only [List.forall_mem_cons]
  exact ⟨⟨rfl, rfl⟩, ⟨rfl, hid⟩, ⟨rfl, hname⟩, ⟨rfl, isText_inputOrEmpty hinput⟩,
    List.forall_mem_nil _⟩

theorem isText_thinking {thought : Json} {signature : Option Bytes} (h : thought.isText = true)
    (hsignature : ∀ s ∈ signature, Utf8.valid s = true) :
    (thinking thought signature).toClaude.isText = true := by
  refine isText_objectWith ?_ (List.forall_mem_singleton.mpr fun j hj => ?_)
  · simp only [List.forall_mem_cons]
    exact ⟨⟨rfl, rfl⟩, ⟨rfl, h⟩, List.forall_mem_nil _⟩
  · obtain ⟨s, hs, rfl⟩ := Option.map_eq_some_iff.mp hj
    exact ⟨rfl, hsignature s hs⟩

end ContentBlock

namespace Completion

/-- The strings of a reply are UTF-8. -/
structure IsText (c : Completion) : Prop where
  id : Utf8.valid c.id = true
  model : Utf8.valid c.model = true
  content : ∀ block ∈ c.content, block.toClaude.isText = true
  stopReason : Utf8.valid c.stopReason = true
  stopSequence : ∀ s ∈ c.stopSequence, Utf8.valid s = true

theorem valid_roleName (role : Role) : Utf8.valid role.name = true := by
  cases role <;> rfl

/-- **The Claude value of a reply of text is text.** -/
theorem isText_toClaude {c : Completion} (h : c.IsText) {freshId : Bytes}
    (hfresh : Utf8.valid freshId = true) : (c.toClaude freshId).isText = true := by
  refine isText_objectWith ?_ ?_
  · simp only [List.forall_mem_cons]
    refine ⟨⟨rfl, ?_⟩, ⟨rfl, rfl⟩, ⟨rfl, valid_roleName c.role⟩, ⟨rfl, ?_⟩, List.forall_mem_nil _⟩
    · show Utf8.valid (if c.id.isEmpty then freshId else c.id) = true
      split
      · exact hfresh
      · exact h.id
    · exact itemsAreText_iff.mpr (List.forall_mem_map.mpr h.content)
  · simp only [List.forall_mem_cons]
    have hnonempty {s key : Bytes} (hkey : Utf8.valid key = true) (hs : Utf8.valid s = true) :
        ∀ j ∈ (if s.isEmpty then none else some (Json.str s)), FieldIsText (key, j) := by
      intro j hj
      obtain ⟨-, hj⟩ := Option.ite_none_left_eq_some.mp hj
      cases hj
      exact ⟨hkey, hs⟩
    refine ⟨hnonempty rfl h.model, hnonempty rfl h.stopReason, ?_, ?_, List.forall_mem_nil _⟩
    · intro j hj
      obtain ⟨s, hs, rfl⟩ := Option.map_eq_some_iff.mp hj
      exact ⟨rfl, h.stopSequence s hs⟩
    · intro j hj
      obtain ⟨u, -, rfl⟩ := Option.map_eq_some_iff.mp hj
      exact ⟨rfl, u.isText_toClaude⟩

end Completion

namespace OpenAI

variable {reply message : Json} {id : Bytes}

theorem isText_inputOfArguments (arguments : Bytes) :
    (inputOfArguments arguments).isText = true := by
  unfold inputOfArguments
  cases h : parse? arguments with
  | none => rfl
  | some j => exact isText_of_parse? h

theorem valid_of_textOfMessage? (h : message.isText = true) :
    ∀ text ∈ textOfMessage? message, Utf8.valid text = true := by
  intro text htext
  obtain ⟨value, hvalue, hstring⟩ :=
    Option.bind_eq_some_iff.mp (Option.mem_filter_iff.mp htext).1
  exact valid_of_string? (isText_field? h hvalue) hstring

theorem isText_of_blockOfCall {call : Json} {block : ContentBlock} (h : call.isText = true)
    (hblock : blockOfCall call = some block) : block.toClaude.isText = true := by
  obtain ⟨-, hblock⟩ := Option.ite_none_right_eq_some.mp hblock
  cases hblock
  have hfunction : ((call.field? "function").getD .null).isText = true := isText_fieldD h rfl
  exact ContentBlock.isText_toolUse (valid_stringField h) (valid_stringField hfunction)
    (isText_inputOfArguments _)

theorem isText_callsOfMessage (h : message.isText = true) :
    ∀ block ∈ callsOfMessage message, block.toClaude.isText = true := by
  intro block hblock
  obtain ⟨call, hcall, hblock⟩ := List.mem_filterMap.mp hblock
  cases hcalls : message.arrayField? "tool_calls" with
  | none =>
    rw [hcalls] at hcall
    exact absurd hcall List.not_mem_nil
  | some calls =>
    rw [hcalls] at hcall
    exact isText_of_blockOfCall (isText_of_mem_arrayField? h hcalls call hcall) hblock

/-- The message of the first choice. -/
theorem isText_messageOf (h : reply.isText = true) :
    (((reply.headField? "choices").bind (·.field? "message")).getD .null).isText = true := by
  cases hchoice : reply.headField? "choices" with
  | none => rfl
  | some choice => exact isText_fieldD (isText_headField? h hchoice) rfl

theorem isText_completionOf (h : reply.isText = true) (hid : Utf8.valid id = true) :
    (completionOf reply id).IsText where
  id := hid
  model := valid_stringField h
  content := by
    have hmessage := isText_messageOf h
    refine List.forall_mem_append.mpr ⟨List.forall_mem_map.mpr ?_, isText_callsOfMessage hmessage⟩
    intro text htext
    exact ContentBlock.isText_text
      (valid_of_textOfMessage? hmessage text (Option.mem_toList.mp htext))
  stopReason := by
    unfold completionOf
    dsimp only
    split
    · unfold StopReason.openaiToClaude
      repeat' split
      all_goals rfl
    · rfl
  stopSequence := nofun

end OpenAI

namespace Gemini

variable {reply part : Json} {id : Bytes}

theorem isText_of_mem_replyParts (h : reply.isText = true) :
    ∀ p ∈ replyParts reply, p.1.isText = true := by
  intro p hp
  rw [replyParts] at hp
  split at hp
  · rename_i content hcontent
    obtain ⟨candidate, hcandidate, hcontent⟩ := Option.bind_eq_some_iff.mp hcontent
    have hpart := isText_objectField? (isText_headField? h hcandidate) hcontent
    have hmem := List.fst_mem_of_mem_zipIdx hp
    cases hparts : content.arrayField? "parts" with
    | none =>
      rw [hparts] at hmem
      exact absurd hmem List.not_mem_nil
    | some parts =>
      rw [hparts] at hmem
      exact isText_of_mem_arrayField? hpart hparts _ hmem
  · exact absurd hp List.not_mem_nil

theorem isText_of_replyTextBlock? {block : ContentBlock} (h : part.isText = true)
    (hblock : replyTextBlock? part = some block) : block.toClaude.isText = true := by
  unfold replyTextBlock? at hblock
  dsimp only at hblock
  split at hblock
  · cases hblock
  · split at hblock
    · cases hblock
      exact ContentBlock.isText_thinking (valid_stringField h) fun s hs => valid_of_signature? h hs
    · cases hblock
      exact ContentBlock.isText_text (valid_stringField h)

theorem isText_of_replyCallBlock? {block : ContentBlock} {position : Nat} (h : part.isText = true)
    (hblock : replyCallBlock? part position = some block) : block.toClaude.isText = true := by
  obtain ⟨call, hcall, rfl⟩ := Option.map_eq_some_iff.mp hblock
  have htext := isText_objectField? h hcall
  exact ContentBlock.isText_toolUse (valid_toolUseId position) (valid_stringField htext)
    (isText_fieldD htext rfl)

theorem isText_completionOf (h : reply.isText = true) (hid : Utf8.valid id = true) :
    (completionOf reply id).IsText where
  id := hid
  model := valid_stringField h
  content := by
    intro block hblock
    obtain ⟨p, hp, hblock⟩ := List.mem_flatMap.mp hblock
    have hpart := isText_of_mem_replyParts h p hp
    rcases List.mem_append.mp hblock with hblock | hblock
    · exact isText_of_replyTextBlock? hpart (Option.mem_toList.mp hblock)
    · exact isText_of_replyCallBlock? hpart (Option.mem_toList.mp hblock)
  stopReason := by
    unfold completionOf
    dsimp only
    split
    · rfl
    · unfold StopReason.geminiToClaude
      split <;> rfl
  stopSequence := nofun

theorem isText_of_mem_partsOfChatMessage {message : Json} (h : message.isText = true) :
    ∀ part ∈ partsOfChatMessage message, part.isText = true := by
  refine List.forall_mem_append.mpr ⟨List.forall_mem_map.mpr fun text htext => ?_, ?_⟩
  · exact isText_textPart (OpenAI.valid_of_textOfMessage? h text (Option.mem_toList.mp htext))
  · intro part hpart
    obtain ⟨call, hcall, hpart⟩ := List.mem_filterMap.mp hpart
    obtain ⟨function, hfunction, rfl⟩ := Option.map_eq_some_iff.mp hpart
    have hcall : call.isText = true := by
      cases hcalls : message.arrayField? "tool_calls" with
      | none =>
        rw [hcalls] at hcall
        exact absurd hcall List.not_mem_nil
      | some calls =>
        rw [hcalls] at hcall
        exact isText_of_mem_arrayField? h hcalls call hcall
    refine isText_callPart (valid_stringField (isText_objectField? hcall hfunction)) ?_
    unfold argsOfArguments
    split
    · rfl
    · cases harguments : parse? (function.stringField "arguments") with
      | none => rfl
      | some j => exact isText_of_parse? harguments

/-- The part of a block of a Claude reply. -/
theorem isText_of_partOfReplyBlock? {block : Json} (h : block.isText = true)
    (hpart : partOfReplyBlock? (.ofClaude block) = some part) : part.isText = true := by
  unfold ContentBlock.ofClaude at hpart
  dsimp only at hpart
  split at hpart
  · cases hpart
    exact isText_textPart (valid_stringField h)
  split at hpart
  · cases himage : ContentBlock.imageOf? block with
    | none =>
      rw [himage] at hpart
      cases hpart
    | some image =>
      obtain ⟨source, -, hsource⟩ := Option.bind_eq_some_iff.mp himage
      obtain ⟨-, hsource⟩ := Option.ite_none_right_eq_some.mp hsource
      cases hsource
      rw [himage] at hpart
      cases hpart
  split at hpart
  · cases hpart
    exact isText_callPart (valid_stringField h) (isText_fieldD h rfl)
  split at hpart
  · cases hpart
  split at hpart
  · cases hthought : (block.field? "thinking").getD .null with
    | str thought =>
      have htext : (Json.str thought).isText = true := hthought ▸ isText_fieldD h rfl
      rw [hthought] at hpart
      cases hpart
      refine isText_thoughtPart htext fun s hs => ?_
      obtain ⟨value, hvalue, hstring⟩ := Option.bind_eq_some_iff.mp hs
      exact valid_of_string? (isText_field? h hvalue) hstring
    | _ =>
      rw [hthought] at hpart
      cases hpart
  · cases hpart

/-- A response with one candidate. -/
theorem isText_response {parts : List Json} {reason : Bytes} {usage : Option Json}
    (hparts : ∀ part ∈ parts, part.isText = true) (hreason : Utf8.valid reason = true)
    (husage : ∀ j ∈ usage, j.isText = true) :
    (objectWith [("candidates", .arr [candidate parts reason])]
      [("usageMetadata", usage)]).isText = true := by
  have hcandidate : (candidate parts reason).isText = true := by
    refine isText_object ?_
    simp only [List.forall_mem_cons]
    refine ⟨⟨rfl, isText_object ?_⟩, ⟨rfl, hreason⟩, ⟨rfl, rfl⟩, List.forall_mem_nil _⟩
    simp only [List.forall_mem_cons]
    exact ⟨⟨rfl, itemsAreText_iff.mpr hparts⟩, ⟨rfl, rfl⟩, List.forall_mem_nil _⟩
  refine isText_objectWith (List.forall_mem_singleton.mpr ⟨rfl, ?_⟩)
    (List.forall_mem_singleton.mpr fun j hj => ⟨rfl, husage j hj⟩)
  exact itemsAreText_iff.mpr (List.forall_mem_singleton.mpr hcandidate)

theorem isText_usageReport? (reply : Json) (key : Bytes) :
    ∀ j ∈ usageReport? reply key, j.isText = true := by
  intro j hj
  obtain ⟨u, -, rfl⟩ := Option.map_eq_some_iff.mp hj
  exact u.isText_toGemini

theorem isText_responseOfClaude (h : reply.isText = true) :
    (responseOfClaude reply).isText = true := by
  unfold responseOfClaude
  split
  · rfl
  · rename_i blocks hblocks
    refine isText_response (fun part hpart => ?_) ?_ (isText_usageReport? reply "usage")
    · obtain ⟨block, hblock, hpart⟩ := List.mem_filterMap.mp hpart
      exact isText_of_partOfReplyBlock? (isText_of_mem_arrayField? h hblocks block hblock) hpart
    · unfold StopReason.claudeToGemini
      split <;> rfl

theorem isText_responseOfOpenai (h : reply.isText = true) :
    (responseOfOpenai reply).isText = true := by
  unfold responseOfOpenai
  split
  · rfl
  · rename_i choice hchoice
    refine isText_response (isText_of_mem_partsOfChatMessage ?_) ?_
      (isText_usageReport? reply "usage")
    · exact isText_fieldD (isText_headField? h hchoice) rfl
    · split
      · unfold StopReason.openaiToGemini
        repeat' split
        all_goals rfl
      · rfl

end Gemini

/-! ## 3. Conversions -/

/-- A conversion of a body that returns for objects, and fails as unread for every other body. -/
structure Converts {α : Type} (body : Bytes) (result : Except RelayError α) : Prop where
  returns : ReadsAsObject body → ∃ a, result = .ok a
  fails : ¬ ReadsAsObject body → ∃ e, result = .error e ∧ Unread body e

namespace Converts

variable {α : Type} {body : Bytes} {result : Except RelayError α} {a : α} {e : RelayError}

theorem readsAsObject (h : Converts body result) (hreturned : ∃ a, result = .ok a) :
    ReadsAsObject body := by
  by_contra hnot
  obtain ⟨a, ha⟩ := hreturned
  obtain ⟨e, he, -⟩ := h.fails hnot
  cases he.symm.trans ha

theorem unread (h : Converts body result) (he : result = .error e) : Unread body e := by
  by_cases hobject : ReadsAsObject body
  · obtain ⟨a, ha⟩ := h.returns hobject
    cases ha.symm.trans he
  · obtain ⟨e', he', hunread⟩ := h.fails hobject
    cases he'.symm.trans he
    exact hunread

end Converts

/-- **What is read as an object and cannot fail afterwards** is such a conversion. -/
theorem converts_of_total {α : Type} {body context : Bytes} {convert : Json → Except RelayError α}
    (h : ∀ fields, (Json.obj fields).isText = true → ∃ a, convert (.obj fields) = .ok a) :
    Converts body (parseObject body context >>= convert) where
  returns := by
    rintro ⟨fields, hfields⟩
    rw [parseObject_of_parse? hfields]
    exact h fields (isText_of_parse? hfields)
  fails hnot := by
    cases hread : parseObject body context with
    | ok object =>
      obtain ⟨hparse, fields, rfl⟩ := of_parseObject hread
      exact absurd ⟨fields, hparse⟩ hnot
    | error e => exact ⟨e, rfl, unread_of_parseObject hread⟩

variable {body : Bytes}

theorem converts_passed (body context : Bytes) :
    Converts body ((parseObject body context).map fun _ => body) :=
  converts_of_total fun _ _ => ⟨body, rfl⟩

theorem ClaudeClient.converts_replyOfOpenai {id : Bytes} (hid : Utf8.valid id = true) :
    Converts body (replyOfOpenai body id) :=
  converts_of_total fun _ hobject =>
    ⟨_, dump_of_isText (Completion.isText_toClaude (OpenAI.isText_completionOf hobject hid) hid)⟩

theorem ClaudeClient.converts_replyOfGemini {model id : Bytes} (hmodel : Utf8.valid model = true)
    (hid : Utf8.valid id = true) : Converts body (replyOfGemini body model id) := by
  refine converts_of_total fun _ hobject => ⟨_, dump_of_isText ?_⟩
  have htext := Completion.isText_toClaude (Gemini.isText_completionOf hobject hid) hid
  split
  · exact isText_set htext rfl hmodel
  · exact htext

theorem GeminiClient.converts_reply (dialect : Dialect) : Converts body (reply dialect body) := by
  cases dialect with
  | claude =>
    exact converts_of_total fun _ hobject =>
      ⟨_, dump_of_isText (Gemini.isText_responseOfClaude hobject)⟩
  | openai =>
    exact converts_of_total fun _ hobject =>
      ⟨_, dump_of_isText (Gemini.isText_responseOfOpenai hobject)⟩
  | gemini | responses => exact converts_passed body _

namespace RepliesClient

variable {dialect : Dialect} {asked : Asked} {sessions : SessionStore} {fresh : Nat}
  {input : List Item}

theorem converts_replyObject (dialect : Dialect) (body previousId freshId : Bytes) :
    Converts body (replyObject dialect body previousId freshId) := by
  cases dialect with
  | claude => exact converts_of_total fun _ _ => ⟨_, rfl⟩
  | openai => exact converts_of_total fun _ _ => ⟨_, rfl⟩
  | gemini | responses =>
    have hwhole : Converts body (parseObject body "Responses response" >>= pure) :=
      converts_of_total fun fields _ => ⟨.obj fields, rfl⟩
    rwa [bind_pure] at hwhole

/-- **The reply for a client of the Responses dialect**, recorded or not. -/
theorem converts_reply (hinput : Item.ofInput asked.input = .ok input)
    (hprevious : Utf8.valid asked.previousId = true) (hsessions : sessions.Nameable) :
    Converts body (reply dialect asked body sessions fresh).2.result where
  returns hobject := by
    obtain ⟨object, hok⟩ := (converts_replyObject dialect body _ _).returns hobject
    obtain ⟨whole, -, -, hresult⟩ := exists_result_reply hok hinput hprevious
      (hsessions.resume asked.previousId (Identifier.session fresh)).1
    exact ⟨_, hresult⟩
  fails hnot := by
    obtain ⟨e, he, hunread⟩ := (converts_replyObject dialect body _ _).fails hnot
    rw [reply_of_error he]
    exact ⟨e, rfl, hunread⟩

end RepliesClient

/-! ## 4. Bridges -/

/-- The name of a model stays UTF-8 where the mapping's targets are. -/
theorem Backend.valid_redirect {backend : Backend} {model : Bytes}
    (hmodels : ∀ e ∈ backend.models, Utf8.valid e.2 = true) (hmodel : Utf8.valid model = true) :
    Utf8.valid (backend.redirect model) = true := by
  unfold redirect
  split
  · rename_i target hfind
    exact hmodels _ (Table.mem_of_find? hfind)
  · split
    · rename_i e hfind
      exact hmodels e (List.mem_mergeSort.mp (List.mem_of_find?_eq_some hfind))
    · exact hmodel

namespace Bridge

variable {b : Bridge} {inbound : ClientRequest} {backend : Backend} {apiKey : Bytes}
  {earlier sessions : SessionStore} {options : Options} {built : BackendRequest} {body : Bytes}
  {fresh : Nat}

theorem converts_reply (hbuilt : (b.request inbound backend apiKey earlier options).result =
      .ok built)
    (hmodels : ∀ e ∈ backend.models, Utf8.valid e.2 = true) (hsessions : sessions.Nameable) :
    Converts body ((b.remember inbound backend).reply body sessions fresh).2.result := by
  cases b with
  | claudeToClaude => exact converts_passed body _
  | claudeToOpenai => exact ClaudeClient.converts_replyOfOpenai (Identifier.valid_message fresh)
  | claudeToGemini model =>
    refine ClaudeClient.converts_replyOfGemini ?_ (Identifier.valid_message fresh)
    simp only [request, ClaudeClient.requestToGemini, Attempt.bind_eq, Attempt.result_andThen]
      at hbuilt
    obtain ⟨value, hvalue, -⟩ := bind_eq_ok_iff.mp hbuilt
    have hread : parseObject inbound.body "Claude request" = .ok value := hvalue
    rw [ClaudeClient.geminiModel, hread]
    exact Backend.valid_redirect hmodels
      (valid_stringField (isText_of_parse? (of_parseObject hread).1))
  | geminiTo dialect route => exact GeminiClient.converts_reply dialect
  | repliesTo dialect asked =>
    obtain ⟨value, endpoint, hvalue, htarget⟩ := RepliesClient.of_request hbuilt
    obtain ⟨input, hinput⟩ := RepliesClient.exists_input_of_target htarget
    have hasked : asked.ofRequest inbound = .ofJson value := by
      rw [RepliesClient.Asked.ofRequest, hvalue]
    show Converts body (RepliesClient.reply dialect (asked.ofRequest inbound) ..).2.result
    rw [hasked]
    exact RepliesClient.converts_reply hinput
      (valid_stringField (isText_of_parse? (of_parseObject hvalue).1)) hsessions

/-- **Replies fail only where they cannot be read.** A bridge whose request was built, over a
mapping to names that are UTF-8 and sessions whose latest replies can be named, returns for a body
exactly when the body is read as an object. For every other body it fails as undecodable, or because
of a number that no double can hold: no value of another type and no string is ever in the way. -/
theorem reply_fails_only_unread
    (hbuilt : (b.request inbound backend apiKey earlier options).result = .ok built)
    (hmodels : ∀ e ∈ backend.models, Utf8.valid e.2 = true)
    (hsessions : ∀ id session, Table.find? sessions.sessions id = some session →
      Utf8.valid session.lastReplyId = true) (body : Bytes) (fresh : Nat) :
    let result := ((b.remember inbound backend).reply body sessions fresh).2.result
    ((∃ reply, result = .ok reply) ↔ ∃ fields, parse? body = some (.obj fields)) ∧
      ∀ e, result = .error e →
        (∃ message context, e = .undecodable message context ∧
            parse body ≠ .error .numberOutOfRange) ∨
          (e = .numberOutOfRange ∧ parse body = .error .numberOutOfRange) := by
  intro result
  have hconverts : Converts body result := converts_reply hbuilt hmodels hsessions
  refine ⟨⟨hconverts.readsAsObject, hconverts.returns⟩, fun e he => ?_⟩
  cases hconverts.unread he with
  | undecodable message context hparse => exact .inl ⟨message, context, rfl, hparse⟩
  | numberOutOfRange hparse => exact .inr ⟨rfl, hparse⟩

/-- A conversation goes on with a reply whose fields all have the wrong type, and fails with a
    number that is too large. -/
theorem reply_fails_only_unread_continued :
    let b : Bridge := .repliesTo .claude {}
    let backend : Backend := ⟨"b", .claude, "https://api.example", [], ["k"], [("m", "n")]⟩
    let ask : ClientRequest := ⟨"POST", "/v1/responses", [], [],
      "\x7b\"model\":\"m\",\"input\":\"more\",\"previous_response_id\":\"r\"\x7d"⟩
    let sessions : SessionStore := ⟨[("s", { id := "s", lastReplyId := "r" })], [("r", "s")]⟩
    let answered (body : Bytes) := ((b.remember ask backend).reply body sessions 0).2.result
    (∃ reply,
      answered "\x7b\"content\":[null,5],\"usage\":[1],\"model\":\x7b\x7d\x7d" = .ok reply) ∧
      answered "1e400" = .error .numberOutOfRange := by
  intro b backend ask sessions answered
  obtain ⟨built, hbuilt⟩ :
      ∃ built, (b.request ask backend "k" sessions default).result = .ok built :=
    exists_of_isSome_toOption (by decide +kernel)
  have hsessions : ∀ id session, Table.find? sessions.sessions id = some session →
      Utf8.valid session.lastReplyId = true := by
    intro id session hfind
    cases List.mem_singleton.mp (Table.mem_of_find? hfind)
    decide
  have hreply := reply_fails_only_unread hbuilt (by decide) hsessions
  refine ⟨(hreply _ 0).1.mpr ⟨[("content", .arr [.null, .int 5]), ("model", .obj []),
    ("usage", .arr [.int 1])], by decide +kernel⟩, ?_⟩
  have hrange : parse "1e400" = .error .numberOutOfRange := by decide +kernel
  cases hresult : answered "1e400" with
  | ok reply =>
    obtain ⟨fields, hfields⟩ := (hreply "1e400" 0).1.mp ⟨reply, hresult⟩
    cases hrange.symm.trans (parse_of_parse? hfields)
  | error e =>
    obtain ⟨_, _, -, hparse⟩ | ⟨rfl, -⟩ := (hreply "1e400" 0).2 e hresult
    · exact absurd hrange hparse
    · rfl

end Bridge

end ChatRelay
