import Mathlib.Data.List.Forall2
import ChatRelay.Proofs.RepliesBridge

/-!
# A conversation in two dialects

The items of a conversation are turned into Claude messages and into chat messages by conversions of
their own, which treat an item without a text differently. Where Claude's accepts the conversation,
the other one does, and they say the same.

* `Agree` -- how the two go together: they succeed alike, or fail alike at an item of an unknown
  type, or Claude's refuses for another reason;
* `Item.SameTurn` -- a message in both dialects;
* `Item.agree_message` -- they agree on each item, whence on lists of items and on conversations;
* `RepliesClient.claude_and_chat_agree` -- and so do the requests that are made of them.
-/

namespace ChatRelay

/-! ## 1. Agreement -/

/-- **Agreement of two conversions**, the first of which may be stricter: both come to results that
    are related, or both fail at an item of the same unknown type, or the first fails otherwise. -/
inductive Agree {α β : Type} (R : α → β → Prop) :
    Except RelayError α → Except RelayError β → Prop where
  | both {a : α} {b : β} (related : R a b) : Agree R (.ok a) (.ok b)
  | unknown (type : Bytes) : Agree R (.error (.unknownItem type)) (.error (.unknownItem type))
  | refused {e : RelayError} {y : Except RelayError β} (other : ∀ type, e ≠ .unknownItem type) :
      Agree R (.error e) y

namespace Agree

variable {α β γ δ : Type} {R : α → β → Prop} {S : γ → δ → Prop} {x : Except RelayError α}
  {y : Except RelayError β}

theorem refl (x : Except RelayError α) : Agree Eq x x := by
  cases x with
  | ok a => exact .both rfl
  | error e =>
    by_cases h : ∃ type, e = .unknownItem type
    · obtain ⟨type, rfl⟩ := h
      exact .unknown type
    · exact .refused fun type heq => h ⟨type, heq⟩

/-- Steps that agree after steps that agree. -/
theorem bind {f : α → Except RelayError γ} {g : β → Except RelayError δ} (h : Agree R x y)
    (hfg : ∀ a b, R a b → Agree S (f a) (g b)) : Agree S (x >>= f) (y >>= g) := by
  cases h with
  | both related => exact hfg _ _ related
  | unknown type => exact .unknown type
  | refused other => exact .refused other

/-- Conversions that agree on every element agree on lists. -/
theorem mapM {ι : Type} {f : ι → Except RelayError α} {g : ι → Except RelayError β}
    (h : ∀ i, Agree R (f i) (g i)) (items : List ι) :
    Agree (List.Forall₂ R) (items.mapM f) (items.mapM g) := by
  induction items with
  | nil => exact .both .nil
  | cons i items ih =>
    rw [List.mapM_cons, List.mapM_cons]
    refine (h i).bind fun a b hab => ih.bind fun as bs hlists => ?_
    exact .both (.cons hab hlists)

theorem ok (h : Agree R x y) {a : α} (hx : x = .ok a) : ∃ b, y = .ok b ∧ R a b := by
  cases h with
  | both related =>
    cases hx
    exact ⟨_, rfl, related⟩
  | unknown type => cases hx
  | refused other => cases hx

theorem error (h : Agree R x y) {type : Bytes} (hx : x = .error (.unknownItem type)) :
    y = .error (.unknownItem type) := by
  cases h with
  | both related => cases hx
  | unknown type =>
    cases hx
    rfl
  | refused other => exact absurd (Except.error.inj hx) (other type)

end Agree

/-! ## 2. Items -/

namespace Item

/-- **A message in both dialects**: under one role, the text as the only block of the one and as the
    content of the other. -/
inductive SameTurn : Json → Json → Prop where
  | of (role text : Bytes) : SameTurn
      (.object [("role", .str role),
        ("content", .arr [.object [("type", .str "text"), ("text", .str text)]])])
      (.object [("role", .str role), ("content", .str text)])

/-- **The two conversions agree on each item.** -/
theorem agree_message (i : Item) :
    Agree (Option.Rel SameTurn) i.claudeMessage? i.chatMessage? := by
  have hturn := SameTurn.of i.roleOrUser (textOfContent i.content)
  rw [claudeMessage?, chatMessage?]
  by_cases hmessage : i.type = "message"
  · have hchat : i.type = "message" ∨ i.type = "text" := .inl hmessage
    rw [if_pos hmessage, if_pos hchat]
    cases (textOfContent i.content).isEmpty with
    | true => exact .both Option.Rel.none
    | false => exact .both (Option.Rel.some hturn)
  · rw [if_neg hmessage]
    by_cases htext : i.type = "text"
    · have hchat : i.type = "message" ∨ i.type = "text" := .inr htext
      rw [if_pos htext, if_pos hchat]
      cases (textOfContent i.content).isEmpty with
      | true => exact .refused fun type => nofun
      | false => exact .both (Option.Rel.some hturn)
    · rw [if_neg htext, if_neg (not_or_intro hmessage htext)]
      cases i.isToolItem with
      | true => exact .both Option.Rel.none
      | false => exact .unknown i.type

/-- The system message of a chat. -/
def systemTurn (instructions : Json) : Json :=
  .object [("role", .str "system"), ("content", instructions)]

/-- What belongs together of a conversation: message by message, behind the system message that a
    chat begins with when there are instructions. -/
def SameTurns (system : Option Json) (messages chat : List Json) : Prop :=
  ∃ turns, chat = (system.map systemTurn).toList ++ turns ∧ List.Forall₂ SameTurn messages turns

/-- The instructions as a system text, when there are any. -/
def systemText? (instructions : Bytes) : Option Json :=
  if instructions.isEmpty then none else some (.str instructions)

/-- **They agree on conversations**: the history comes first, and the input is read alike. -/
theorem agree_conversation (history : List Item) (input : Json) (instructions : Bytes) :
    Agree (SameTurns (systemText? instructions)) (claudeMessages history input)
      (chatMessages history input instructions) := by
  refine (Agree.mapM agree_message history).bind fun earlier earlier' hearlier => ?_
  refine (Agree.refl (ofInput input)).bind fun items items' hitems => ?_
  subst hitems
  refine (Agree.mapM agree_message items).bind fun later later' hlater => ?_
  refine .both ⟨(earlier' ++ later').filterMap id, ?_, ?_⟩
  · rw [systemText?]
    cases instructions <;> rfl
  · exact List.rel_filterMap (fun _ _ h => h) (List.rel_append hearlier hlater)

end Item

/-! ## 3. Requests -/

namespace RepliesClient

open Item (SameTurn SameTurns systemText? agree_conversation)

/-- **The bodies for Claude and for a chat backend agree** in what they say of a conversation. -/
theorem agree_body (request : Json) (history : List Item) (model : Bytes) (limit : Int) :
    Agree (fun claude chat => ∃ messages turns,
        claude.field? "messages" = some (.arr messages) ∧
        claude.field? "system" = systemText? (request.stringField "instructions") ∧
        chat.field? "messages" = some (.arr turns) ∧
        SameTurns (systemText? (request.stringField "instructions")) messages turns)
      (claudeBody request history model limit) (openaiBody request history model) := by
  rw [claudeBody, openaiBody]
  refine (agree_conversation history (Asked.ofJson request).input
    (request.stringField "instructions")).bind fun messages turns hsame => ?_
  refine .both ⟨messages, turns, Json.field?_objectWith rfl, ?_, Json.field?_objectWith rfl, hsame⟩
  exact Json.field?_objectWith_of_nodup (by simp only [List.map_cons, List.map_nil]; decide)
    "system"

/-- **Claude and a chat backend are told the same conversation.** Whenever its messages for Claude
can be made, so can those of the chat: message by message the same role and the same text, in order,
behind a system message that stands there exactly when there are instructions. An item of an unknown
type that fails the first fails the second. In the requests that are made of them the system message
has Claude's system text. -/
theorem claude_and_chat_agree (history : List Item) :
    (∀ input instructions messages, Item.claudeMessages history input = .ok messages →
      ∃ turns, Item.chatMessages history input instructions =
          .ok ((if instructions = [] then [] else [Item.systemTurn (.str instructions)]) ++ turns) ∧
        List.Forall₂ SameTurn messages turns) ∧
    (∀ input instructions type, Item.claudeMessages history input = .error (.unknownItem type) →
      Item.chatMessages history input instructions = .error (.unknownItem type)) ∧
    ∀ request model limit claude, claudeBody request history model limit = .ok claude →
      ((claude.field? "system").isSome ↔ request.stringField "instructions" ≠ []) ∧
      ∃ chat messages turns, openaiBody request history model = .ok chat ∧
        claude.field? "messages" = some (.arr messages) ∧
        chat.field? "messages" =
          some (.arr (((claude.field? "system").map Item.systemTurn).toList ++ turns)) ∧
        List.Forall₂ SameTurn messages turns := by
  refine ⟨fun input instructions messages h => ?_, fun input instructions type h => ?_,
    fun request model limit claude h => ?_⟩
  · obtain ⟨_, hchat, turns, rfl, hsame⟩ := (agree_conversation history input instructions).ok h
    refine ⟨turns, ?_, hsame⟩
    rw [hchat, systemText?]
    cases instructions <;> rfl
  · exact (agree_conversation history input instructions).error h
  · obtain ⟨chat, hchat, messages, _, hmessages, hsystem, hturns, turns, rfl, hsame⟩ :=
      (agree_body request history model limit).ok h
    rw [hsystem]
    refine ⟨?_, chat, messages, turns, hchat, hmessages, hturns, hsame⟩
    rw [systemText?]
    cases request.stringField "instructions" <;> simp

/-- A user and an assistant have spoken, and the user goes on, under instructions; an item of
another type stops both. -/
theorem claude_and_chat_agree_both_roles :
    let history : List Item := [.ofText "hello", ⟨"tool_call", [], .null⟩,
      ⟨"message", "assistant",
        .arr [.object [("type", .str "output_text"), ("text", .str "hi")]]⟩]
    let said (role text : Bytes) : Json := .object [("role", .str role),
      ("content", .arr [.object [("type", .str "text"), ("text", .str text)]])]
    let messages := [said "user" "hello", said "assistant" "hi", said "user" "more"]
    let brief := Item.systemTurn (.str "be brief")
    let request : Json := .object [("instructions", .str "be brief"), ("input", .str "more")]
    Item.claudeMessages history (.str "more") = .ok messages ∧
    (∃ turns, Item.chatMessages history (.str "more") "be brief" = .ok (brief :: turns) ∧
      List.Forall₂ SameTurn messages turns) ∧
    (∃ claude chat turns, claudeBody request history "m" 100 = .ok claude ∧
      openaiBody request history "m" = .ok chat ∧
      chat.field? "messages" = some (.arr (brief :: turns)) ∧
      List.Forall₂ SameTurn messages turns) ∧
    Item.chatMessages history (.arr [.object [("type", .str "audio")]]) "be brief" =
      .error (.unknownItem "audio") := by
  intro history said messages brief request
  have hmessages : Item.claudeMessages history (.str "more") = .ok messages := rfl
  have hunknown : Item.claudeMessages history (.arr [.object [("type", .str "audio")]]) =
      .error (.unknownItem "audio") := rfl
  obtain ⟨claude, hclaude, hsystem, hfield⟩ : ∃ claude, claudeBody request history "m" 100 =
      .ok claude ∧ claude.field? "system" = some (.str "be brief") ∧
      claude.field? "messages" = some (.arr messages) := ⟨_, rfl, rfl, rfl⟩
  obtain ⟨hturns, hstops, hbodies⟩ := claude_and_chat_agree history
  obtain ⟨-, chat, _, turns, hchat, hsaid, hchatMessages, hsame⟩ :=
    hbodies request "m" 100 claude hclaude
  obtain rfl := Json.arr.inj (Option.some.inj (hfield.symm.trans hsaid))
  rw [hsystem] at hchatMessages
  exact ⟨hmessages, hturns _ _ _ hmessages,
    ⟨claude, chat, turns, hclaude, hchat, hchatMessages, hsame⟩, hstops _ _ _ hunknown⟩

end RepliesClient

end ChatRelay
