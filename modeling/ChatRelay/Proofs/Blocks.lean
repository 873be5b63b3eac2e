import ChatRelay.Stream.Event

/-!
# Blocks in a stream for Claude clients

The grammar of the events that a Claude client is sent, apart from where they come from.

* `ClaudeEvent.openAfter?` reads events and keeps the block that is open; an event out of place --
  a start while a block is open, a piece or a stop of another block, a piece of another kind -- ends
  the reading;
* `CallsWhole`: a tool call is a start, one delta and a stop with nothing between;
* `OnlyClosed`: events that occur only while no block is open;
* `ReasonsTell`: a stop reason says whether a tool was called before it;
* `startIndices`, `callIndices`, `callIds`, `wordsOf`, `textOf` are what a client collects.

Each of them is said of two lists in a row, which is how a transcoder's steps are put together.
-/

namespace ChatRelay

/-- Whether the delta is a piece of a block of this kind. -/
def BlockDelta.fits : BlockDelta → BlockOpening → Bool
  | text _, .text => true
  | thinking _, .thinking => true
  | signature _, .thinking => true
  | input _, .toolUse _ _ => true
  | _, _ => false

/-- A content block that is open. -/
structure OpenBlock where
  index : Nat
  kind : BlockOpening
  deriving DecidableEq

namespace ClaudeEvent

/-! ## 1. Brackets -/

/-- What is open after an event; `none` when the event is out of place. -/
def next? : Option OpenBlock → ClaudeEvent → Option (Option OpenBlock)
  | none, blockStart index kind => some (some ⟨index, kind⟩)
  | some b, blockDelta index delta =>
    if index = b.index ∧ delta.fits b.kind = true then some (some b) else none
  | some b, blockStop index => if index = b.index then some none else none
  | b, messageDelta _ _ => some b
  | _, _ => none

/-- What is open after events; `none` when one of them is out of place. -/
def openAfter? : Option OpenBlock → List ClaudeEvent → Option (Option OpenBlock)
  | b, [] => some b
  | b, e :: events => (next? b e).bind fun b => openAfter? b events

theorem openAfter?_append (b : Option OpenBlock) (xs ys : List ClaudeEvent) :
    openAfter? b (xs ++ ys) = (openAfter? b xs).bind fun b => openAfter? b ys := by
  induction xs generalizing b with
  | nil => rfl
  | cons e xs ih =>
    simp only [List.cons_append, openAfter?]
    cases next? b e <;> simp [ih]

/-- An event of two lists in a row is one of the second or one of the first. -/
theorem split_append {xs ys before after : List ClaudeEvent} {e : ClaudeEvent}
    (h : xs ++ ys = before ++ e :: after) :
    (∃ mid, before = xs ++ mid ∧ ys = mid ++ e :: after) ∨
      ∃ mid, xs = before ++ e :: mid ∧ after = mid ++ ys := by
  rcases List.append_eq_append_iff.mp h with ⟨mid, hbefore, hys⟩ | ⟨mid, hxs, hmid⟩
  · exact Or.inl ⟨mid, hbefore, hys⟩
  · rcases List.cons_eq_append_iff.mp hmid with ⟨rfl, hys⟩ | ⟨mid, rfl, hafter⟩
    · rw [List.append_nil] at hxs
      exact Or.inl ⟨[], by rw [hxs, List.append_nil], hys⟩
    · exact Or.inr ⟨mid, hxs, hafter⟩

/-! ## 2. Whole calls -/

/-- Every tool call is a start, a delta with its input and a stop, one after the other. -/
def CallsWhole (events : List ClaudeEvent) : Prop :=
  ∀ before index id name after, events = before ++ blockStart index (.toolUse id name) :: after →
    ∃ input rest, after = blockDelta index (.input input) :: blockStop index :: rest

/-- Whether the event starts a tool call. -/
def startsCall : ClaudeEvent → Bool
  | blockStart _ (.toolUse _ _) => true
  | _ => false

variable {xs ys : List ClaudeEvent}

theorem callsWhole_of_none (h : ∀ e ∈ xs, startsCall e = false) : CallsWhole xs := by
  intro before index id name after heq
  subst heq
  have := h (blockStart index (.toolUse id name)) (by simp)
  cases this

theorem callsWhole_call (index : Nat) (id name : Bytes) (input : Json) :
    CallsWhole [blockStart index (.toolUse id name), blockDelta index (.input input),
      blockStop index] := by
  intro before index' id' name' after h
  rcases before with _ | ⟨e, before⟩
  · simp only [List.nil_append, List.cons.injEq] at h
    obtain ⟨h, rfl⟩ := h
    cases h
    exact ⟨input, [], rfl⟩
  · -- no later event of the three is a start
    rcases before with _ | ⟨e', _ | ⟨e'', before⟩⟩ <;> simp at h

theorem CallsWhole.append (hx : CallsWhole xs) (hy : CallsWhole ys) : CallsWhole (xs ++ ys) := by
  intro before index id name after h
  rcases split_append h with ⟨mid, rfl, hys⟩ | ⟨mid, hxs, rfl⟩
  · exact hy mid index id name after hys
  · obtain ⟨input, rest, rfl⟩ := hx before index id name mid hxs
    exact ⟨input, rest ++ ys, rfl⟩

theorem CallsWhole.tail {e : ClaudeEvent} (h : CallsWhole (e :: xs)) : CallsWhole xs := by
  intro before index id name after heq
  subst heq
  exact h (e :: before) index id name after rfl

/-! ## 3. Events outside blocks -/

/-- From what is open at first, the events with the property occur only while nothing is open. -/
def OnlyClosed (p : ClaudeEvent → Bool) (b : Option OpenBlock) (events : List ClaudeEvent) : Prop :=
  ∀ before e after, events = before ++ e :: after → p e = true → openAfter? b before = some none

variable {p : ClaudeEvent → Bool} {b b' : Option OpenBlock}

theorem onlyClosed_of_none (h : ∀ e ∈ xs, p e = false) : OnlyClosed p b xs := by
  intro before e after heq hp
  subst heq
  rw [h e (by simp)] at hp
  cases hp

theorem onlyClosed_singleton (e : ClaudeEvent) : OnlyClosed p none [e] := by
  intro before e' after h hp
  rcases List.singleton_eq_append_iff.mp h with ⟨rfl, -⟩ | ⟨-, h⟩
  · rfl
  · cases h

theorem OnlyClosed.append (hx : OnlyClosed p b xs) (ho : openAfter? b xs = some b')
    (hy : OnlyClosed p b' ys) : OnlyClosed p b (xs ++ ys) := by
  intro before e after h hp
  rcases split_append h with ⟨mid, rfl, hys⟩ | ⟨mid, hxs, rfl⟩
  · rw [openAfter?_append, ho]
    exact hy mid e after hys hp
  · exact hx before e mid hxs hp

/-! ## 4. Stop reasons -/

/-- A stop reason asks for tools exactly when a tool was called before it; `calls` is the number of
    calls before all the events. -/
def ReasonsTell (calls : Nat) (events : List ClaudeEvent) : Prop :=
  ∀ before reason usage after, events = before ++ messageDelta (some reason) usage :: after →
    (reason = Bytes.ofString "tool_use" ↔ 0 < calls + before.countP startsCall)

/-- Whether the event carries a stop reason. -/
def hasReason : ClaudeEvent → Bool
  | messageDelta (some _) _ => true
  | _ => false

variable {calls calls' : Nat}

theorem reasonsTell_of_none (h : ∀ e ∈ xs, hasReason e = false) : ReasonsTell calls xs := by
  intro before reason usage after heq
  subst heq
  have := h (messageDelta (some reason) usage) (by simp)
  cases this

theorem reasonsTell_singleton {reason : Bytes} (usage : Option Usage)
    (h : reason = Bytes.ofString "tool_use" ↔ 0 < calls) :
    ReasonsTell calls [messageDelta (some reason) usage] := by
  intro before reason' usage' after he
  rcases List.singleton_eq_append_iff.mp he with ⟨rfl, he⟩ | ⟨-, he⟩
  · cases he
    exact h
  · cases he

theorem ReasonsTell.append (hx : ReasonsTell calls xs)
    (hcalls : calls + xs.countP startsCall = calls') (hy : ReasonsTell calls' ys) :
    ReasonsTell calls (xs ++ ys) := by
  intro before reason usage after h
  rcases split_append h with ⟨mid, rfl, hys⟩ | ⟨mid, hxs, rfl⟩
  · rw [List.countP_append, ← Nat.add_assoc, hcalls]
    exact hy mid reason usage after hys
  · exact hx before reason usage mid hxs

/-! ## 5. What a client collects -/

/-- The pieces of the thinking deltas, or else of the text deltas, joined. -/
def wordsOf (thoughts : Bool) (events : List ClaudeEvent) : Bytes :=
  events.flatMap fun
    | blockDelta _ (.text piece) => if thoughts then [] else piece
    | blockDelta _ (.thinking piece) => if thoughts then piece else []
    | _ => []

/-- The text that is delivered. -/
def textOf (events : List ClaudeEvent) : Bytes :=
  wordsOf false events

/-- The indices at which blocks start. -/
def startIndices (events : List ClaudeEvent) : List Nat :=
  events.filterMap fun
    | blockStart index _ => some index
    | _ => none

/-- The indices at which tool calls start. -/
def callIndices (events : List ClaudeEvent) : List Nat :=
  events.filterMap fun
    | blockStart index (.toolUse _ _) => some index
    | _ => none

/-- The ids of the tool calls. -/
def callIds (events : List ClaudeEvent) : List Bytes :=
  events.filterMap fun
    | blockStart _ (.toolUse id _) => some id
    | _ => none

/-- The tool calls that a client puts together: what starts a call and the input that follows. -/
def callBlocks : List ClaudeEvent → List ContentBlock
  | blockStart _ (.toolUse id name) :: blockDelta _ (.input input) :: events =>
    .toolUse id name input :: callBlocks events
  | _ :: events => callBlocks events
  | [] => []

/-- Whether the event reports the end of the message or its usage. -/
def isMessageDelta : ClaudeEvent → Bool
  | messageDelta _ _ => true
  | _ => false

/-- Whether the event tells the client to call tools. -/
def isToolStop : ClaudeEvent → Bool
  | messageDelta (some reason) _ => reason = Bytes.ofString "tool_use"
  | _ => false

@[simp] theorem wordsOf_append (thoughts : Bool) (xs ys : List ClaudeEvent) :
    wordsOf thoughts (xs ++ ys) = wordsOf thoughts xs ++ wordsOf thoughts ys := List.flatMap_append

@[simp] theorem textOf_append (xs ys : List ClaudeEvent) :
    textOf (xs ++ ys) = textOf xs ++ textOf ys := List.flatMap_append

@[simp] theorem startIndices_append (xs ys : List ClaudeEvent) :
    startIndices (xs ++ ys) = startIndices xs ++ startIndices ys := List.filterMap_append

@[simp] theorem callIndices_append (xs ys : List ClaudeEvent) :
    callIndices (xs ++ ys) = callIndices xs ++ callIndices ys := List.filterMap_append

@[simp] theorem callIds_append (xs ys : List ClaudeEvent) :
    callIds (xs ++ ys) = callIds xs ++ callIds ys := List.filterMap_append

/-- Events that start no call bring no ids. -/
theorem callIds_of_none (h : ∀ e ∈ xs, startsCall e = false) : callIds xs = [] := by
  refine List.filterMap_eq_nil_iff.mpr fun e he => ?_
  have hcall := h e he
  cases e with
  | blockStart index block =>
    cases block with
    | toolUse id name => cases hcall
    | _ => rfl
  | _ => rfl

/-- An event that starts no call is passed over. -/
theorem callBlocks_cons {e : ClaudeEvent} (h : startsCall e = false) (events : List ClaudeEvent) :
    callBlocks (e :: events) = callBlocks events := by
  cases e with
  | blockStart index block =>
    cases block with
    | toolUse id name => cases h
    | _ => rfl
  | _ => rfl

/-- What follows whole calls does not change them. -/
theorem callBlocks_append (hx : CallsWhole xs) (ys : List ClaudeEvent) :
    callBlocks (xs ++ ys) = callBlocks xs ++ callBlocks ys := by
  fun_induction callBlocks xs with
  | case1 index id name index' input events ih =>
    exact congrArg (_ :: ·) (ih hx.tail.tail)
  | case2 e events hpattern ih =>
    have he : startsCall e = false := by
      cases e with
      | blockStart index block =>
        cases block with
        | toolUse id name =>
          obtain ⟨input, rest, rfl⟩ := hx [] index id name events rfl
          exact absurd rfl (hpattern index id name index input _ rfl)
        | _ => rfl
      | _ => rfl
    rw [List.cons_append, callBlocks_cons he]
    exact ih hx.tail
  | case3 => rfl

/-- Only a message delta carries a stop reason. -/
theorem hasReason_of_not_messageDelta {e : ClaudeEvent} (h : isMessageDelta e = false) :
    hasReason e = false := by
  cases e with
  | messageDelta reason usage => cases h
  | _ => rfl

end ClaudeEvent

end ChatRelay
