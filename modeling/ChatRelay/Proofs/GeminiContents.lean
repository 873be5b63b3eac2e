import Mathlib.Data.List.Forall2
import ChatRelay.Gemini.Request
import ChatRelay.Proofs.ToolTurns

/-!
# What a chat keeps of Gemini contents

A Gemini content may hold texts, function calls and function responses in any number and order; a
chat message is an answer to one call, or it speaks. A content with function responses becomes the
answer to the last of them, and the rest of it is lost.

* `Gemini.answersIn`, `callsIn`, `speechIn` -- what a content holds;
* `Gemini.Carries` -- what a chat keeps of the contents, for any contents;
* `Gemini.Keeps` -- that nothing is lost, and `Carries.keeps_iff` -- when that is so;
* `Gemini.requestToOpenai_carries` -- a request is converted, and its chat carries this.
-/

namespace ChatRelay

section

variable {α β : Type} {f g : α → List β} {xs : List α}

theorem length_flatMap_le (h : ∀ x ∈ xs, (g x).length ≤ (f x).length) :
    (xs.flatMap g).length ≤ (xs.flatMap f).length := by
  induction xs with
  | nil => exact Nat.le_refl _
  | cons x xs ih =>
    obtain ⟨hx, hxs⟩ := List.forall_mem_cons.mp h
    rw [List.flatMap_cons, List.flatMap_cons, List.length_append, List.length_append]
    exact Nat.add_le_add hx (ih hxs)

/-- Lists that are each no longer than others, and as long together, are each as long. -/
theorem length_eq_of_flatMap (hle : ∀ x ∈ xs, (g x).length ≤ (f x).length)
    (h : (xs.flatMap g).length = (xs.flatMap f).length) :
    ∀ x ∈ xs, (g x).length = (f x).length := by
  induction xs with
  | nil => exact List.forall_mem_nil _
  | cons x xs ih =>
    obtain ⟨hx, hxs⟩ := List.forall_mem_cons.mp hle
    have hrest := length_flatMap_le hxs
    rw [List.flatMap_cons, List.flatMap_cons, List.length_append, List.length_append] at h
    exact List.forall_mem_cons.mpr ⟨by omega, ih hxs (by omega)⟩

end

namespace Gemini

open OpenAI (callText answerText listedCall answerMessage listedCalls)

/-! ## 1. What contents hold -/

/-- The parts of a content that are objects, with their positions. -/
def partsIn (content : Json) : List (Json × Nat) :=
  (partsOf? content).getD []

/-- The texts of the parts that are not empty. -/
def textsIn (content : Json) : List Bytes :=
  ((partsIn content).map fun p => p.1.stringField "text").filter (!·.isEmpty)

/-- The position, name and arguments of the function call of a part. -/
def callIn? (p : Json × Nat) : Option (Nat × Bytes × Json) :=
  (p.1.objectField? "functionCall").map fun call =>
    (p.2, call.stringField "name", (call.field? "args").getD .null)

/-- The function calls of a content. -/
def callsIn (content : Json) : List (Nat × Bytes × Json) :=
  (partsIn content).filterMap callIn?

/-- The name and response of a function response. -/
def answerIn (response : Json) : Bytes × Json :=
  (response.stringField "name", (response.field? "response").getD .null)

/-- The function responses of a content. -/
def answersIn (content : Json) : List (Bytes × Json) :=
  ((partsIn content).filterMap fun p => p.1.objectField? "functionResponse").map answerIn

/-- What a content says: its texts, one a line. -/
def speechIn (content : Json) : List Bytes :=
  if (textsIn content).isEmpty then [] else [Bytes.joinLines (textsIn content)]

/-- A function call with the id that the chat knows it by. -/
def chatCall (call : Nat × Bytes × Json) : Bytes × Bytes × Json :=
  (callId call.1, call.2)

/-! ## 2. What chat messages hold -/

/-- The function and the text of an answer, if the chat message is one. -/
def answer? (message : Json) : Option (Bytes × Bytes) :=
  (message.field? "tool_call_id").bind fun _ => OpenAI.answered? message

/-- What a chat message says that is no answer, unless it says nothing. -/
def speech? (message : Json) : Option Bytes :=
  if (message.field? "tool_call_id").isSome then none
  else
    let text := message.stringField "content"
    if text.isEmpty then none else some text

/-! ## 3. One content -/

/-- The answer that is kept: the last one. -/
def lastAnswer (content : Json) : List (Bytes × Json) :=
  (answersIn content).getLast?.toList

/-- What is kept only of a content without answers. -/
def unlessAnswered {α : Type} (f : Json → List α) (content : Json) : List α :=
  if (answersIn content).isEmpty then f content else []

/-- **What a chat keeps of contents**: of a content with answers the last of them and nothing else,
    of others the calls and the texts. -/
structure Carries (contents chat : List Json) : Prop where
  answers : (contents.flatMap lastAnswer).mapM answerText = .ok (chat.filterMap answer?)
  calls : ((contents.flatMap (unlessAnswered callsIn)).map chatCall).mapM callText =
    .ok (chat.flatMap listedCalls)
  speech : contents.flatMap (unlessAnswered speechIn) = chat.filterMap speech?

theorem Carries.append {xs ys chat chat' : List Json} (hx : Carries xs chat)
    (hy : Carries ys chat') : Carries (xs ++ ys) (chat ++ chat') where
  answers := by
    rw [List.flatMap_append, List.filterMap_append]
    exact mapM_append_eq_ok_iff.mpr ⟨_, hx.answers, _, hy.answers, rfl⟩
  calls := by
    rw [List.flatMap_append, List.map_append, List.flatMap_append]
    exact mapM_append_eq_ok_iff.mpr ⟨_, hx.calls, _, hy.calls, rfl⟩
  speech := by rw [List.flatMap_append, List.filterMap_append, hx.speech, hy.speech]

theorem toolCall?_of_none {p : Json × Nat} (h : callIn? p = none) :
    toolCall? p.1 p.2 = .ok none := by
  rw [toolCall?, Option.map_eq_none_iff.mp h]

theorem toolCall?_of_some {p : Json × Nat} {call : Nat × Bytes × Json} (h : callIn? p = some call) :
    toolCall? p.1 p.2 = ((callText (chatCall call)).map listedCall).map some := by
  obtain ⟨found, hfound, rfl⟩ := Option.map_eq_some_iff.mp h
  rw [toolCall?, hfound]
  dsimp only [callText, chatCall]
  cases ((found.field? "args").getD .null).dump <;> rfl

/-- The message of a content without answers. -/
def speakingMessage (content : Json) (calls : List (Bytes × Bytes × Bytes)) : Json :=
  .objectWith
    [("role", .str (roleName (content.stringField "role"))),
      ("content", if (textsIn content).isEmpty && !calls.isEmpty then .null
        else .str (Bytes.joinLines (textsIn content)))]
    [("tool_calls", if calls.isEmpty then none else some (.arr (calls.map listedCall)))]

/-- The calls of a message are those of its content. -/
theorem map_toolCalls {content : Json} {parts : List (Json × Nat)}
    (hparts : partsOf? content = some parts) :
    (parts.mapM fun p => toolCall? p.1 p.2).map (·.filterMap id) =
      (((callsIn content).map chatCall).mapM callText).map (·.map listedCall) := by
  have hlist : (parts.mapM fun p => toolCall? p.1 p.2).map (·.filterMap id) =
      (parts.filterMap callIn?).mapM fun call => (callText (chatCall call)).map listedCall :=
    map_filterMap_mapM (fun _ => toolCall?_of_none) (fun _ _ => toolCall?_of_some) parts
  rw [hlist, mapM_eq_map_mapM fun _ => rfl, List.mapM_map, callsIn, partsIn, hparts]
  rfl

/-- The message of a content, by what the content holds. -/
theorem messageToOpenai?_eq {content : Json} {parts : List (Json × Nat)}
    (hparts : partsOf? content = some parts) :
    messageToOpenai? content =
      (((callsIn content).map chatCall).mapM callText).bind fun calls =>
        match (answersIn content).getLast? with
        | some answer => (answerText answer).map (some ∘ answerMessage)
        | none => .ok (some (speakingMessage content calls)) := by
  have hcalls := map_toolCalls hparts
  have hanswers : (answersIn content).getLast? =
      (parts.filterMap fun p => p.1.objectField? "functionResponse").getLast?.map answerIn := by
    rw [answersIn, partsIn, hparts, List.getLast?_map]
    rfl
  have htexts : textsIn content =
      (parts.map fun p => p.1.stringField "text").filter (!·.isEmpty) := by
    rw [textsIn, partsIn, hparts]
    rfl
  unfold messageToOpenai?
  rw [hparts, hanswers]
  dsimp only
  generalize (parts.mapM fun p => toolCall? p.1 p.2) = listed at hcalls ⊢
  generalize ((callsIn content).map chatCall).mapM callText = texts at hcalls ⊢
  cases listed with
  | error e =>
    cases texts with
    | error e' => cases hcalls; rfl
    | ok texts => cases hcalls
  | ok listed =>
    cases texts with
    | error e => cases hcalls
    | ok texts =>
      have hlisted : listed.filterMap id = texts.map listedCall := Except.ok.inj hcalls
      cases (parts.filterMap fun p => p.1.objectField? "functionResponse").getLast? with
      | some response =>
        show Except.bind _ _ = Except.map _ (Except.map _ _)
        dsimp only [answerIn]
        cases ((response.field? "response").getD .null).textOrDump <;> rfl
      | none =>
        show Except.ok _ = Except.ok _
        rw [hlisted, ← htexts, List.isEmpty_map]
        rfl

/-- An answer carries nothing else. -/
theorem carries_answer {content : Json} {answer : Bytes × Json} {text : Bytes × Bytes}
    (hlast : (answersIn content).getLast? = some answer) (htext : answerText answer = .ok text) :
    Carries [content] [answerMessage text] := by
  have hanswered : (answersIn content).isEmpty = false := by
    cases hanswers : answersIn content with
    | nil => rw [hanswers] at hlast; cases hlast
    | cons => rfl
  have hnone {α : Type} (f : Json → List α) : unlessAnswered f content = [] := by
    rw [unlessAnswered, hanswered]
    rfl
  constructor
  · rw [List.flatMap_singleton, lastAnswer, hlast]
    exact mapM_cons_eq_ok_iff.mpr ⟨text, htext, [], rfl, rfl⟩
  · rw [List.flatMap_singleton, hnone]
    rfl
  · rw [List.flatMap_singleton, hnone]
    rfl

/-- What a content says is not empty. -/
theorem joinLines_textsIn {content : Json} (h : textsIn content ≠ []) :
    Bytes.joinLines (textsIn content) ≠ [] := by
  obtain ⟨text, texts, htexts⟩ := List.exists_cons_of_ne_nil h
  have hmem : text ∈ textsIn content := by
    rw [htexts]
    exact List.mem_cons_self
  have hne : text ≠ [] := by
    simpa using (List.mem_filter.mp hmem).2
  rw [htexts]
  cases texts with
  | nil => simpa [Bytes.joinLines] using hne
  | cons => simp [Bytes.joinLines]

theorem speech?_speakingMessage (content : Json) (calls : List (Bytes × Bytes × Bytes)) :
    [speakingMessage content calls].filterMap speech? = speechIn content := by
  have hid : (speakingMessage content calls).field? "tool_call_id" = none :=
    Json.field?_objectWith rfl
  have hcontent : (speakingMessage content calls).field? "content" =
      some (if (textsIn content).isEmpty && !calls.isEmpty then .null
        else .str (Bytes.joinLines (textsIn content))) :=
    Json.field?_objectWith rfl
  rw [List.filterMap_cons, speech?, hid, Json.stringField, Json.stringFieldD, hcontent, speechIn]
  cases htexts : textsIn content with
  | nil => cases calls <;> rfl
  | cons text texts =>
    have hsaid : Bytes.joinLines (text :: texts) ≠ [] := by
      rw [← htexts]
      exact joinLines_textsIn (by rw [htexts]; exact List.cons_ne_nil _ _)
    simp [hsaid]

/-- A content without answers is carried as a whole. -/
theorem carries_speakingMessage {content : Json} {calls : List (Bytes × Bytes × Bytes)}
    (hlast : (answersIn content).getLast? = none)
    (hcalls : ((callsIn content).map chatCall).mapM callText = .ok calls) :
    Carries [content] [speakingMessage content calls] := by
  have hnone : answersIn content = [] := List.getLast?_eq_none_iff.mp hlast
  have hall {α : Type} (f : Json → List α) : unlessAnswered f content = f content := by
    rw [unlessAnswered, hnone]
    rfl
  have hid : (speakingMessage content calls).field? "tool_call_id" = none :=
    Json.field?_objectWith rfl
  constructor
  · rw [List.flatMap_singleton, lastAnswer, hlast, List.filterMap_cons_none]
    · rfl
    · rw [answer?, hid]
      rfl
  · rw [List.flatMap_singleton, hall, List.flatMap_singleton, hcalls]
    cases calls with
    | nil => rfl
    | cons call calls =>
      show _ = Except.ok (((call :: calls).map listedCall).map _)
      rw [List.map_map]
      exact congrArg Except.ok (List.map_id _).symm
  · rw [List.flatMap_singleton, hall, speech?_speakingMessage]

/-- A content without parts holds nothing. -/
theorem carries_nil {content : Json} (h : partsOf? content = none) : Carries [content] [] := by
  have hparts : partsIn content = [] := by
    rw [partsIn, h]
    rfl
  constructor
  · rw [List.flatMap_singleton, lastAnswer, answersIn, hparts]
    rfl
  · rw [List.flatMap_singleton, unlessAnswered, answersIn, callsIn, hparts]
    rfl
  · rw [List.flatMap_singleton, unlessAnswered, answersIn, speechIn, textsIn, hparts]
    rfl

theorem isText_of_mem_partsIn {content : Json} (h : content.isText = true) :
    ∀ p ∈ partsIn content, p.1.isText = true := by
  intro p hp
  unfold partsIn partsOf? at hp
  split at hp
  · cases hp
  · cases hp
  · rename_i parts _ hparts
    have hmem : p.1 ∈ parts := List.fst_mem_of_mem_zipIdx (List.mem_filter.mp hp).1
    exact Json.isText_of_mem_arrayField? h hparts p.1 hmem

theorem exists_callTexts {content : Json} (h : content.isText = true) :
    ∃ calls, ((callsIn content).map chatCall).mapM callText = .ok calls := by
  refine mapM_eq_ok_of_forall fun call hcall => ?_
  obtain ⟨found, hfound, rfl⟩ := List.mem_map.mp hcall
  obtain ⟨p, hp, hin⟩ := List.mem_filterMap.mp hfound
  obtain ⟨function, hfunction, rfl⟩ := Option.map_eq_some_iff.mp hin
  have hargs : ((function.field? "args").getD .null).isText = true :=
    Json.isText_fieldD (Json.isText_objectField? (isText_of_mem_partsIn h p hp) hfunction) rfl
  exact ⟨_, map_eq_ok_iff.mpr ⟨_, Json.dump_of_isText hargs, rfl⟩⟩

theorem exists_answerText {content : Json} (h : content.isText = true) {answer : Bytes × Json}
    (hanswer : answer ∈ answersIn content) : ∃ text, answerText answer = .ok text := by
  obtain ⟨response, hresponse, rfl⟩ := List.mem_map.mp hanswer
  obtain ⟨p, hp, hfound⟩ := List.mem_filterMap.mp hresponse
  have htext : ((response.field? "response").getD .null).isText = true :=
    Json.isText_fieldD (Json.isText_objectField? (isText_of_mem_partsIn h p hp) hfound) rfl
  unfold answerText answerIn
  cases hvalue : (response.field? "response").getD .null with
  | str text => exact ⟨_, rfl⟩
  | _ =>
    rw [hvalue] at htext
    exact ⟨_, map_eq_ok_iff.mpr ⟨_, Json.dump_of_isText htext, rfl⟩⟩

/-- **A content of text becomes at most one message**, which carries what is kept. -/
theorem exists_messageToOpenai? {content : Json} (h : content.isText = true) :
    ∃ message, messageToOpenai? content = .ok message ∧ Carries [content] message.toList := by
  cases hparts : partsOf? content with
  | none =>
    have hnone : messageToOpenai? content = .ok none := by rw [messageToOpenai?, hparts]
    exact ⟨none, hnone, carries_nil hparts⟩
  | some parts =>
    obtain ⟨calls, hcalls⟩ := exists_callTexts h
    rw [messageToOpenai?_eq hparts, hcalls]
    cases hlast : (answersIn content).getLast? with
    | none => exact ⟨_, rfl, carries_speakingMessage hlast hcalls⟩
    | some answer =>
      obtain ⟨text, htext⟩ := exists_answerText h (List.mem_of_getLast? hlast)
      refine ⟨some (answerMessage text), ?_, carries_answer hlast htext⟩
      show (answerText answer).map _ = _
      rw [htext]
      rfl

/-! ## 4. Contents -/

/-- Contents of text are converted one by one. -/
theorem exists_mapM_messageToOpenai? {contents : List Json}
    (h : ∀ content ∈ contents, content.isText = true) :
    ∃ messages, contents.mapM messageToOpenai? = .ok messages ∧
      List.Forall₂ (fun content message => Carries [content] message.toList) contents messages := by
  induction contents with
  | nil => exact ⟨[], rfl, .nil⟩
  | cons content contents ih =>
    obtain ⟨hcontent, hcontents⟩ := List.forall_mem_cons.mp h
    obtain ⟨message, hmessage, hfirst⟩ := exists_messageToOpenai? hcontent
    obtain ⟨messages, hmessages, hrest⟩ := ih hcontents
    exact ⟨message :: messages,
      mapM_cons_eq_ok_iff.mpr ⟨message, hmessage, messages, hmessages, rfl⟩, .cons hfirst hrest⟩

theorem carries_of_forall₂ {contents : List Json} {messages : List (Option Json)}
    (h : List.Forall₂ (fun content message => Carries [content] message.toList) contents messages) :
    Carries contents (messages.filterMap id) := by
  induction h with
  | nil => exact ⟨rfl, rfl, rfl⟩
  | @cons content message contents messages hfirst _ ih =>
    rw [filterMap_cons_eq_append]
    exact hfirst.append ih

/-- **Nothing of the contents is lost**: every function response is an answer, every function call
    is listed, and what each content says is said, all in their order. -/
structure Keeps (contents chat : List Json) : Prop where
  answers : (contents.flatMap answersIn).mapM answerText = .ok (chat.filterMap answer?)
  calls : ((contents.flatMap callsIn).map chatCall).mapM callText =
    .ok (chat.flatMap listedCalls)
  speech : contents.flatMap speechIn = chat.filterMap speech?

/-- A content with an answer holds nothing else. -/
def Separate (content : Json) : Prop :=
  answersIn content = [] ∨
    ((answersIn content).length = 1 ∧ textsIn content = [] ∧ callsIn content = [])

instance (content : Json) : Decidable (Separate content) :=
  inferInstanceAs (Decidable (_ ∨ _))

theorem length_lastAnswer_le (content : Json) :
    (lastAnswer content).length ≤ (answersIn content).length := by
  unfold lastAnswer
  cases hlast : (answersIn content).getLast? with
  | none => exact Nat.zero_le _
  | some answer => exact List.length_pos_of_mem (List.mem_of_getLast? hlast)

theorem length_unlessAnswered_le {α : Type} (f : Json → List α) (content : Json) :
    (unlessAnswered f content).length ≤ (f content).length := by
  unfold unlessAnswered
  split
  · exact Nat.le_refl _
  · exact Nat.zero_le _

theorem lastAnswer_of_length_le {content : Json} (h : (answersIn content).length ≤ 1) :
    lastAnswer content = answersIn content := by
  unfold lastAnswer
  cases hall : answersIn content with
  | nil => rfl
  | cons answer answers =>
    rw [hall, List.length_cons] at h
    have hnone : answers = [] := List.eq_nil_of_length_eq_zero (by omega)
    rw [hnone]
    rfl

theorem unlessAnswered_of_nil {α : Type} {content : Json} (f : Json → List α)
    (h : answersIn content = []) : unlessAnswered f content = f content := by
  rw [unlessAnswered, h]
  rfl

namespace Separate

variable {content : Json}

theorem lastAnswer_eq (h : Separate content) : lastAnswer content = answersIn content := by
  refine lastAnswer_of_length_le ?_
  rcases h with hnone | ⟨hone, -, -⟩
  · rw [hnone]
    exact Nat.zero_le _
  · exact Nat.le_of_eq hone

theorem calls_eq (h : Separate content) : unlessAnswered callsIn content = callsIn content := by
  obtain hnone | ⟨-, -, hcalls⟩ := h
  · exact unlessAnswered_of_nil callsIn hnone
  · rw [unlessAnswered, hcalls, ite_self]

theorem speech_eq (h : Separate content) : unlessAnswered speechIn content = speechIn content := by
  obtain hnone | ⟨-, htexts, -⟩ := h
  · exact unlessAnswered_of_nil speechIn hnone
  · have hsilent : speechIn content = [] := by
      rw [speechIn, htexts]
      rfl
    rw [unlessAnswered, hsilent, ite_self]

end Separate

/-- Where something is lost, less is kept. -/
theorem separate_of_length {content : Json}
    (hanswers : (lastAnswer content).length = (answersIn content).length)
    (hcalls : (unlessAnswered callsIn content).length = (callsIn content).length)
    (hspeech : (unlessAnswered speechIn content).length = (speechIn content).length) :
    Separate content := by
  cases hall : answersIn content with
  | nil => exact .inl hall
  | cons answer answers =>
    have hone : (lastAnswer content).length ≤ 1 := by
      unfold lastAnswer
      cases (answersIn content).getLast? <;> simp
    have hanswered {α : Type} (f : Json → List α) : unlessAnswered f content = [] := by
      rw [unlessAnswered, hall]
      rfl
    rw [hanswered] at hcalls hspeech
    refine .inr ⟨?_, ?_, List.length_eq_zero_iff.mp hcalls.symm⟩
    · rw [hall, List.length_cons] at hanswers ⊢
      omega
    · cases htexts : textsIn content with
      | nil => rfl
      | cons text texts =>
        rw [speechIn, htexts] at hspeech
        cases hspeech

/-- **Nothing is lost exactly when answers stand alone.** What is kept of a content is no longer
    than what it holds, so that all is kept only if each content is kept. -/
theorem Carries.keeps_iff {contents chat : List Json} (h : Carries contents chat) :
    Keeps contents chat ↔ ∀ content ∈ contents, Separate content := by
  constructor
  · intro hkeeps content hcontent
    have hanswers := length_eq_of_flatMap (fun c _ => length_lastAnswer_le c)
      ((length_of_mapM h.answers).symm.trans (length_of_mapM hkeeps.answers)) content hcontent
    have hcalls := length_eq_of_flatMap (fun c _ => length_unlessAnswered_le callsIn c)
      (by simpa using (length_of_mapM h.calls).symm.trans (length_of_mapM hkeeps.calls))
      content hcontent
    have hspeech := length_eq_of_flatMap (fun c _ => length_unlessAnswered_le speechIn c)
      (congrArg List.length (h.speech.trans hkeeps.speech.symm)) content hcontent
    exact separate_of_length hanswers hcalls hspeech
  · intro hseparate
    constructor
    · rw [← List.flatMap_congr fun c hc => (hseparate c hc).lastAnswer_eq]
      exact h.answers
    · rw [← List.flatMap_congr fun c hc => (hseparate c hc).calls_eq]
      exact h.calls
    · rw [← List.flatMap_congr fun c hc => (hseparate c hc).speech_eq]
      exact h.speech

/-! ## 5. Requests -/

/-- The contents of a request. -/
def contentsOf (request : Json) : List Json :=
  (request.arrayField? "contents").getD []

theorem isText_of_mem_contentsOf {request : Json} (h : request.isText = true) :
    ∀ content ∈ contentsOf request, content.isText = true := by
  unfold contentsOf
  cases hcontents : request.arrayField? "contents" with
  | none => exact List.forall_mem_nil _
  | some contents => exact Json.isText_of_mem_arrayField? h hcontents

/-- The message with the system prompt of a request, if it has one. -/
def systemMessages (request : Json) : List Json :=
  if (systemText request).isEmpty then [] else [OpenAI.textMessage "system" (systemText request)]

theorem valueD_contents {request : Json} (h : request.isObject = true) :
    ∃ value, request.valueD "contents" (.arr []) = .ok value ∧
      value.array?.getD [] = contentsOf request := by
  cases request with
  | obj fields =>
    refine ⟨_, rfl, ?_⟩
    rw [contentsOf, Json.arrayField?, Json.field?]
    cases Table.find? fields (Bytes.ofString "contents") <;> rfl
  | _ => cases h

/-- A request is converted when its contents are. -/
theorem exists_requestToOpenai {request : Json} (hobject : request.isObject = true)
    {messages : List (Option Json)}
    (hmessages : (contentsOf request).mapM messageToOpenai? = .ok messages) (model : Bytes) :
    ∃ out, requestToOpenai request model = .ok out ∧
      out.arrayField? "messages" = some (systemMessages request ++ messages.filterMap id) := by
  obtain ⟨value, hvalue, hcontents⟩ := valueD_contents hobject
  rw [← hcontents] at hmessages
  refine ⟨_, bind_eq_ok_iff.mpr
    ⟨value, hvalue, bind_eq_ok_iff.mpr ⟨messages, hmessages, rfl⟩⟩, ?_⟩
  rw [Json.arrayField?, Json.field?_objectWith rfl]
  rfl

/-- **What the chat of a request keeps of its contents.** Every request of text is converted; behind
    the system prompt its chat carries of each content with function responses the last of them, and
    all of the others. So nothing is lost exactly when every content with a function response holds
    that one and no text and no function call. -/
theorem requestToOpenai_carries {request : Json} (hobject : request.isObject = true)
    (htext : request.isText = true) (model : Bytes) :
    ∃ out chat, requestToOpenai request model = .ok out ∧
      out.arrayField? "messages" = some (systemMessages request ++ chat) ∧
      Carries (contentsOf request) chat ∧
      (Keeps (contentsOf request) chat ↔ ∀ content ∈ contentsOf request, Separate content) := by
  obtain ⟨messages, hmessages, heach⟩ :=
    exists_mapM_messageToOpenai? (isText_of_mem_contentsOf htext)
  have hcarries := carries_of_forall₂ heach
  obtain ⟨out, hout, hchat⟩ := exists_requestToOpenai hobject hmessages model
  exact ⟨out, _, hout, hchat, hcarries, hcarries.keeps_iff⟩

/-- A text, two calls, and their answers in contents of their own: nothing is lost. -/
theorem requestToOpenai_carries_answers_apart :
    let said : Json := .object [("role", .str "user"), ("parts", .arr [textPart "hi"])]
    let calling : Json := .object [("role", .str "model"),
      ("parts", .arr [textPart "so", callPart "f" (.object [("x", .int 1)]), callPart "g" .null])]
    let answering (name response : Bytes) : Json := .object [("role", .str "user"),
      ("parts", .arr [.object [("functionResponse",
        .object [("name", .str name), ("response", .str response)])]])]
    let contents := [said, calling, answering "f" "one", answering "g" "two"]
    let request : Json := .object [("contents", .arr contents)]
    ∃ out chat, requestToOpenai request "m" = .ok out ∧ out.arrayField? "messages" = some chat ∧
      chat.length = 4 ∧ Keeps contents chat := by
  intro said calling answering contents request
  have hcontents : contentsOf request = contents := rfl
  have hsystem : systemMessages request = [] := rfl
  obtain ⟨out, chat, hout, hchat, hcarries, hkeeps⟩ :=
    requestToOpenai_carries (rfl : request.isObject = true) (by decide +kernel) "m"
  rw [hcontents] at hcarries hkeeps
  rw [hsystem, List.nil_append] at hchat
  have hfour : ((requestToOpenai request "m").toOption.bind
      (·.arrayField? "messages")).map (·.length) = some 4 := by decide +kernel
  rw [hout] at hfour
  refine ⟨out, chat, hout, hchat, ?_, hkeeps.mpr ?_⟩
  · rw [show (Except.ok out : Except RelayError Json).toOption = some out from rfl,
      Option.bind_some, hchat] at hfour
    exact Option.some.inj hfour
  · unfold contents
    decide +kernel

/-- Two answers in one content: only the second is in the chat. -/
theorem first_answer_lost :
    let answering : Json := .object [("role", .str "user"), ("parts", .arr [
      .object [("functionResponse",
        .object [("name", .str "f"), ("response", .object [("x", .int 1)])])],
      .object [("functionResponse",
        .object [("name", .str "g"), ("response", .object [("y", .int 2)])])]])]
    let request : Json := .object [("contents", .arr [answering])]
    ∃ out chat, requestToOpenai request "m" = .ok out ∧ out.arrayField? "messages" = some chat ∧
      (answersIn answering).length = 2 ∧
      chat = [answerMessage (Bytes.ofString "g", Bytes.ofString "\x7b\"y\":2\x7d")] ∧
      ¬ Keeps [answering] chat := by
  intro answering request
  have hchat : (requestToOpenai request "m").toOption.map (·.arrayField? "messages") =
      some (some [answerMessage (Bytes.ofString "g", Bytes.ofString "\x7b\"y\":2\x7d")]) := by
    decide +kernel
  obtain ⟨out, hout, hchat⟩ := exists_of_toOption_map hchat
  refine ⟨out, _, hout, hchat, by decide +kernel, rfl, fun h => ?_⟩
  have hlengths := length_of_mapM h.answers
  exact absurd hlengths (by decide +kernel)

end Gemini

end ChatRelay
