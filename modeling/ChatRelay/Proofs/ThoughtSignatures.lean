import ChatRelay.Proofs.GeminiAnswers
import ChatRelay.Proofs.GeminiBlocks
import ChatRelay.Proofs.StreamedBlocks

/-!
# Signatures of thoughts

A model signs its thoughts, and takes a thought back in a later turn only with its signature. So a
signature has to come along when a thought is translated.

* `signed_responseOfClaude`, `signed_responseToClaude` -- whole replies keep the signed thoughts, in
  both directions;
* `GeminiToClaude.Signs` -- a list of events and the signed thoughts in it; lists in a row sign what
  both sign (`Signs.append`);
* `ClaudeToGemini.unsigned_onChunk` -- in the other direction a stream delivers thoughts without
  signatures;
* `signatures_carried_where_no_delta_signs` -- all four translations, and `streamed_signature_lost`,
  where the last one goes wrong.
-/

namespace ChatRelay

open ClaudeEvent (openAfter?)
open Gemini (partsOf reasonOf)

/-! ## 1. Signed thoughts -/

/-- A thought with its signature; there is none unless both have a text. -/
def signedThought? (thought signature : Bytes) : Option (Bytes × Bytes) :=
  if thought.isEmpty || signature.isEmpty then none else some (thought, signature)

/-- The signed thought that a block of a Claude reply holds. -/
def ContentBlock.signed? (block : Json) : Option (Bytes × Bytes) :=
  if block.stringField "type" = "thinking" then
    signedThought? (block.stringField "thinking") (block.stringField "signature")
  else none

/-- The signed thought that a part holds. -/
def Gemini.signed? (part : Json) : Option (Bytes × Bytes) :=
  if part.boolField "thought" then
    signedThought? (part.stringField "text") (part.stringField "thoughtSignature")
  else none

/-- The signed thoughts of a Claude reply, in order. -/
def ContentBlock.signedIn (reply : Json) : List (Bytes × Bytes) :=
  ((reply.arrayField? "content").getD []).filterMap signed?

/-- The signed thoughts of the first candidate of a response or of a chunk, in order. -/
def Gemini.signedIn (reply : Json) : List (Bytes × Bytes) :=
  (partsOf reply).filterMap signed?

/-- The signed thoughts that a Claude client is sent: a piece of a thought with the signature behind
    it, both for one block. -/
def ClaudeEvent.signedIn : List ClaudeEvent → List (Bytes × Bytes)
  | blockDelta i (.thinking thought) :: blockDelta j (.signature signature) :: events =>
    (if i = j then (signedThought? thought signature).toList else []) ++ signedIn events
  | _ :: events => signedIn events
  | [] => []

theorem signedThought?_nil (thought : Bytes) : signedThought? thought [] = none := by
  rw [signedThought?, List.isEmpty_nil, Bool.or_true]
  rfl

theorem signedThought?_of_isEmpty {thought : Bytes} (h : thought.isEmpty = true)
    (signature : Bytes) : signedThought? thought signature = none := by
  rw [signedThought?, h]
  rfl

/-! ## 2. Whole replies -/

namespace Gemini

/-- The signed thought of a thought that is written as a part. -/
theorem signed?_thoughtPart (thought : Bytes) (signature : Option Bytes) :
    signed? (thoughtPart (.str thought) signature) =
      signedThought? thought (signature.getD []) := by
  cases signature <;> rfl

/-- A block of a Claude reply and the part that is made of it hold the same signed thought. -/
theorem signed?_partOfReplyBlock? (block : Json) :
    (partOfReplyBlock? (.ofClaude block)).bind signed? = ContentBlock.signed? block := by
  have hother {type : Bytes} (htype : block.stringField "type" = type)
      (hne : type ≠ Bytes.ofString "thinking") : ContentBlock.signed? block = none :=
    if_neg fun h => hne (htype.symm.trans h)
  unfold ContentBlock.ofClaude
  dsimp only
  split
  · rename_i htype
    rw [hother htype (by decide)]
    rfl
  split
  · rename_i htype
    rw [hother htype (by decide), ContentBlock.imageOf?]
    cases block.objectField? "source" with
    | none => rfl
    | some source =>
      dsimp only [Option.bind_some]
      split <;> rfl
  split
  · rename_i htype
    rw [hother htype (by decide)]
    rfl
  split
  · rename_i htype
    rw [hother htype (by decide)]
    rfl
  split
  · rename_i htype
    rw [ContentBlock.signed?, if_pos htype, Json.stringField_eq block "signature",
      Json.stringField_eq block "thinking"]
    cases block.field? "thinking" with
    | none => exact (signedThought?_of_isEmpty rfl _).symm
    | some thought =>
      cases thought with
      | str thought => exact signed?_thoughtPart thought _
      | _ => exact (signedThought?_of_isEmpty rfl _).symm
  · rename_i htype
    exact (if_neg htype).symm

/-- **A Claude reply for a Gemini client** keeps its signed thoughts. -/
theorem signed_responseOfClaude (reply : Json) :
    signedIn (responseOfClaude reply) = ContentBlock.signedIn reply := by
  unfold responseOfClaude ContentBlock.signedIn
  cases reply.arrayField? "content" with
  | none => rfl
  | some blocks =>
    have hparts (parts : List Json) (reason : Bytes) (usage : Option Json) :
        partsOf (.objectWith [("candidates", .arr [candidate parts reason])]
          [("usageMetadata", usage)]) = parts := by
      cases usage <;> rfl
    dsimp only
    rw [signedIn, hparts, List.filterMap_filterMap, Option.getD_some]
    exact List.filterMap_congr fun block _ => signed?_partOfReplyBlock? block

/-- A signature that is read out of a part, and the one that the part holds. -/
theorem signedThought?_signature? (thought : Bytes) (part : Json) :
    signedThought? thought ((signature? part).getD []) =
      signedThought? thought (part.stringField "thoughtSignature") := by
  unfold signature?
  dsimp only
  split
  · rename_i hempty
    rw [List.isEmpty_iff.mp hempty]
    rfl
  · rfl

theorem signed?_toClaude_thinking (thought : Bytes) (signature : Option Bytes) :
    ContentBlock.signed? (ContentBlock.thinking (.str thought) signature).toClaude =
      signedThought? thought (signature.getD []) := by
  cases signature <;> rfl

/-- A part of a response and the blocks that are made of it hold the same signed thought. -/
theorem signed?_replyBlocks (part : Json) (position : Nat) :
    (((replyTextBlock? part).toList ++ (replyCallBlock? part position).toList).map
      ContentBlock.toClaude).filterMap ContentBlock.signed? = (signed? part).toList := by
  have hcall : ((replyCallBlock? part position).toList.map
      ContentBlock.toClaude).filterMap ContentBlock.signed? = [] := by
    rw [replyCallBlock?]
    cases part.objectField? "functionCall" <;> rfl
  rw [List.map_append, List.filterMap_append, hcall, List.append_nil, replyTextBlock?, signed?]
  by_cases hempty : (part.stringField "text").isEmpty = true
  · rw [if_pos hempty, signedThought?_of_isEmpty hempty, ite_self]
    rfl
  · rw [if_neg hempty]
    split
    · have hthought := signed?_toClaude_thinking (part.stringField "text") (signature? part)
      rw [signedThought?_signature?] at hthought
      rw [Option.toList_some, List.map_singleton, filterMap_cons_eq_append, hthought]
      exact List.append_nil _
    · rfl

/-- **A Gemini response for a Claude client** keeps its signed thoughts. -/
theorem signed_responseToClaude (reply : Json) (id : Bytes) :
    ContentBlock.signedIn (responseToClaude reply id) = signedIn reply := by
  have hparts (parts : List (Json × Nat)) :
      ((parts.flatMap fun p =>
        (replyTextBlock? p.1).toList ++ (replyCallBlock? p.1 p.2).toList).map
          ContentBlock.toClaude).filterMap ContentBlock.signed? =
        (parts.map (·.1)).filterMap signed? := by
    induction parts with
    | nil => rfl
    | cons p parts ih =>
      rw [List.flatMap_cons, List.map_append, List.filterMap_append, signed?_replyBlocks, ih,
        List.map_cons, filterMap_cons_eq_append]
  rw [ContentBlock.signedIn, responseToClaude, arrayField?_toClaude, Option.getD_some, signedIn,
    ← map_fst_replyParts]
  exact hparts (replyParts reply)

end Gemini

/-! ## 3. Gemini streams for Claude clients -/

namespace GeminiToClaude

open ClaudeEvent

variable {xs ys : List ClaudeEvent} {signed signed' : List (Bytes × Bytes)} {s : State}

/-- **What events sign**, where a first signature has no thought before it. -/
structure Signs (events : List ClaudeEvent) (signed : List (Bytes × Bytes)) : Prop where
  apart : ∀ i signature rest, events ≠ blockDelta i (.signature signature) :: rest
  signedIn_eq : signedIn events = signed

theorem signs_nil : Signs [] [] :=
  ⟨nofun, rfl⟩

/-- Events that are no pieces of thoughts and no signatures. -/
theorem signs_of_none (h : ∀ e ∈ xs, ∀ i thought signature, e ≠ blockDelta i (.thinking thought) ∧
    e ≠ blockDelta i (.signature signature)) : Signs xs [] := by
  refine ⟨fun i signature rest hxs => ?_, ?_⟩
  · exact (h _ (hxs ▸ List.mem_cons_self) i [] signature).2 rfl
  · fun_induction signedIn xs with
    | case1 i thought => exact absurd rfl (h _ List.mem_cons_self i thought []).1
    | case2 e events _ ih => exact ih fun e he => h e (List.mem_cons_of_mem _ he)
    | case3 => rfl

theorem signedIn_append (hy : ∀ i signature rest, ys ≠ blockDelta i (.signature signature) :: rest)
    (xs : List ClaudeEvent) : signedIn (xs ++ ys) = signedIn xs ++ signedIn ys := by
  fun_induction signedIn xs with
  | case1 i thought j signature events ih =>
    rw [List.cons_append, List.cons_append, signedIn, ih, List.append_assoc]
  | case2 e events hpair ih =>
    rw [List.cons_append, ← ih]
    refine signedIn.eq_2 _ _ fun i thought j signature rest he hrest => ?_
    -- the signature behind `e` would be the first event of `events`, or of `ys`
    cases events with
    | nil => exact hy j signature rest hrest
    | cons next events =>
      obtain ⟨rfl, -⟩ := List.cons.inj hrest
      exact hpair i thought j signature events he rfl
  | case3 => rfl

theorem Signs.append (hx : Signs xs signed) (hy : Signs ys signed') :
    Signs (xs ++ ys) (signed ++ signed') where
  apart := by
    intro i signature rest h
    cases xs with
    | nil => exact hy.apart i signature rest h
    | cons e xs =>
      obtain ⟨rfl, -⟩ := List.cons.inj h
      exact hx.apart i signature xs rfl
  signedIn_eq := by rw [signedIn_append hy.apart, hx.signedIn_eq, hy.signedIn_eq]

theorem signs_closeBlock (s : State) : Signs (closeBlock s).events [] := by
  unfold closeBlock
  split
  · exact signs_nil
  · exact signs_of_none (by simp)

theorem signs_openBlock (kind : OpenKind) (s : State) : Signs (openBlock kind s).events [] := by
  unfold openBlock
  split
  · exact signs_nil
  · exact (signs_closeBlock s).append (signs_of_none (by simp))

/-- A thought is signed when its part has a signature. -/
theorem signs_addText {part : Json} {text : Bytes} (htext : part.stringField "text" = text)
    (s : State) : Signs (addText part text s).events (Gemini.signed? part).toList := by
  rw [Gemini.signed?, htext]
  unfold addText
  split
  · refine (signs_openBlock .thinking s).append ⟨nofun, ?_⟩
    rw [← Gemini.signedThought?_signature?]
    cases Gemini.signature? part with
    | none =>
      rw [Option.getD_none, signedThought?_nil]
      rfl
    | some signature =>
      show (if _ then (signedThought? text signature).toList else []) ++ [] = _
      rw [if_pos rfl, List.append_nil]
      rfl
  · split
    · exact signs_nil
    · exact (signs_openBlock .text s).append (signs_of_none (by simp))

theorem signs_addCall (call : Json) (s : State) : Signs (addCall call s).events [] :=
  (signs_closeBlock s).append (signs_of_none (by simp))

theorem signs_addPart (part : Json) (s : State) :
    Signs (addPart part s).events (Gemini.signed? part).toList := by
  unfold addPart
  cases htext : (part.field? "text").bind Json.string? with
  | some text => exact signs_addText (by rw [Json.stringField_eq, htext]; rfl) s
  | none =>
    have hnone : Gemini.signed? part = none := by
      rw [Gemini.signed?, Json.stringField_eq, htext, Option.getD_none,
        signedThought?_of_isEmpty rfl, ite_self]
    rw [hnone]
    cases part.objectField? "functionCall" with
    | none => exact signs_nil
    | some call => exact signs_addCall call s

theorem signs_addParts (parts : List Json) (s : State) :
    Signs (addParts parts s).events (parts.filterMap Gemini.signed?) := by
  induction parts generalizing s with
  | nil => exact signs_nil
  | cons part parts ih =>
    rw [filterMap_cons_eq_append]
    exact (signs_addPart part s).append (ih (addPart part s).state)

theorem signs_finish (reason : Bytes) (s : State) : Signs (finish reason s).events [] := by
  unfold finish
  split
  · exact signs_nil
  · exact (signs_closeBlock s).append (signs_of_none (by simp))

/-- **A chunk signs what its parts sign.** -/
theorem signs_onChunk (s : State) (chunk : Json) :
    Signs (onChunk s chunk).events (Gemini.signedIn chunk) := by
  rw [onChunk_eq, ← List.append_nil (Gemini.signedIn chunk)]
  exact (signs_addParts _ _).append (signs_finish _ _)

theorem signs_overChunks (s : State) (chunks : List Json) :
    Signs (Step.overChunks onChunk s chunks).events (chunks.flatMap Gemini.signedIn) := by
  induction chunks generalizing s with
  | nil => exact signs_nil
  | cons chunk chunks ih =>
    rw [List.flatMap_cons]
    exact (signs_onChunk s chunk).append (ih _)

theorem signs_onEnd (s : State) : Signs (onEnd s).events [] := by
  refine (signs_closeBlock s).append ?_
  dsimp only
  split
  · exact signs_nil
  · exact signs_of_none (by simp)

/-- **A whole stream signs what its chunks sign.** -/
theorem signedIn_wholeEvents (lines : List Bytes) :
    signedIn (Step.wholeEvents onChunk onEnd {} lines) =
      (Chunk.objects lines).flatMap Gemini.signedIn := by
  rw [← List.append_nil ((Chunk.objects lines).flatMap Gemini.signedIn)]
  exact ((signs_overChunks {} (Chunk.objects lines)).append (signs_onEnd _)).signedIn_eq

/-- A stream whose lines report no error is written to its end. -/
theorem written {lines : List Bytes} (hlines : ∀ line ∈ lines, ¬ Chunk.Reports line) :
    ∃ fed, (Transcoder.geminiToClaude {}).feed lines = .ok fed ∧
      ∃ last, fed.state.onEnd = .ok last ∧
        (Step.wholeEvents onChunk onEnd {} lines).mapM ClaudeEvent.render =
          .ok (fed.events ++ last.events) := by
  have htext :=
    (keepsText.overChunks (s := {}) trivial (Chunk.isText_of_mem_objects lines)).events
  exact Transcoder.exists_written Transcoder.typed_geminiToClaude
    (fun _ _ he => exists_render (isText_of_mem_onEnd he)) hlines fun e he =>
      exists_render (htext e he)

end GeminiToClaude

/-! ## 4. Claude streams for Gemini clients -/

namespace ClaudeToGemini

/-- The piece of text of some kind that an event adds, unless it is empty. -/
def pieceOf? (kind key : Bytes) (event : Json) : Option Bytes :=
  if event.stringField "type" = "content_block_delta" ∧
      (deltaOf event).stringField "type" = kind then
    let piece := (deltaOf event).stringField key
    if piece.isEmpty then none else some piece
  else none

/-- The thought that an event adds. -/
def thoughtOf? : Json → Option Bytes :=
  pieceOf? "thinking_delta" "thinking"

/-- The signature that an event adds. -/
def signatureOf? : Json → Option Bytes :=
  pieceOf? "signature_delta" "signature"

/-- The thoughts that a Gemini client is sent, in order. -/
def thoughtsIn (chunks : List GeminiChunk) : List Bytes :=
  chunks.flatMap fun chunk =>
    ((partsOf chunk.toJson).filter (·.boolField "thought")).map (·.stringField "text")

/-- Whether a chunk carries this signature. -/
def Carries (chunk : GeminiChunk) (signature : Bytes) : Prop :=
  ∃ part ∈ partsOf chunk.toJson, part.field? "thoughtSignature" = some (.str signature)

/-- **Chunks that bring these thoughts**, and no signature. -/
structure Unsigned (chunks : List GeminiChunk) (thoughts : List Bytes) : Prop where
  thoughtsIn_eq : thoughtsIn chunks = thoughts
  unsigned : ∀ chunk ∈ chunks, ∀ part ∈ partsOf chunk.toJson, part.field? "thoughtSignature" = none

variable {xs ys : List GeminiChunk} {thoughts thoughts' : List Bytes}

theorem unsigned_nil : Unsigned [] [] :=
  ⟨rfl, List.forall_mem_nil _⟩

theorem Unsigned.append (hx : Unsigned xs thoughts) (hy : Unsigned ys thoughts') :
    Unsigned (xs ++ ys) (thoughts ++ thoughts') where
  thoughtsIn_eq := by
    rw [thoughtsIn, List.flatMap_append, ← hx.thoughtsIn_eq, ← hy.thoughtsIn_eq]
    rfl
  unsigned := List.forall_mem_append.mpr ⟨hx.unsigned, hy.unsigned⟩

/-- A chunk with one part that is no thought. -/
theorem unsigned_part {part : Json} (hthought : part.boolField "thought" = false)
    (hsignature : part.field? "thoughtSignature" = none) : Unsigned [.part part] [] where
  thoughtsIn_eq := by
    show (([part].filter (·.boolField "thought")).map (·.stringField "text")) ++ [] = []
    rw [List.filter_cons_of_neg (by rw [hthought]; decide)]
    rfl
  unsigned := List.forall_mem_singleton.mpr (List.forall_mem_singleton.mpr hsignature)

theorem unsigned_startBlock (index : Int) (block : Json) (s : State) :
    Unsigned (startBlock index block s).events [] := by
  unfold startBlock
  split <;> exact unsigned_nil

theorem unsigned_stopBlock (index : Int) (s : State) : Unsigned (stopBlock index s).events [] := by
  unfold stopBlock
  split
  · exact unsigned_nil
  · exact unsigned_part rfl rfl

theorem unsigned_finish (event : Json) (s : State) : Unsigned (finish event s).events [] := by
  have hnone (reason : Bytes) (usage : Option Usage) :
      partsOf (GeminiChunk.finish reason usage).toJson = [] := by
    cases usage <;> rfl
  unfold finish
  refine ⟨?_, List.forall_mem_singleton.mpr ?_⟩
  · rw [thoughtsIn, List.flatMap_singleton, hnone]
    rfl
  · rw [hnone]
    exact List.forall_mem_nil _

/-- A delta of a thought brings the thought; no other delta does. -/
theorem unsigned_addDelta (index : Int) {event : Json}
    (htype : event.stringField "type" = "content_block_delta") (s : State) :
    Unsigned (addDelta index (deltaOf event) s).events (thoughtOf? event).toList := by
  have hother (h : (deltaOf event).stringField "type" ≠ "thinking_delta") :
      thoughtOf? event = none :=
    if_neg fun hboth => h hboth.2
  unfold addDelta
  dsimp only
  split
  · rename_i htext
    rw [hother (by rw [htext]; decide), pieceChunk]
    split
    · exact unsigned_nil
    · exact unsigned_part rfl rfl
  split
  · rename_i hthought
    rw [thoughtOf?, pieceOf?, if_pos ⟨htype, hthought⟩, pieceChunk]
    dsimp only
    split
    · exact unsigned_nil
    · exact ⟨rfl, List.forall_mem_singleton.mpr (List.forall_mem_singleton.mpr rfl)⟩
  · rename_i hthought
    rw [hother hthought]
    split
    · split <;> exact unsigned_nil
    · exact unsigned_nil

/-- **An event brings its thought without a signature**, and a signature brings nothing. -/
theorem unsigned_onChunk (s : State) (event : Json) :
    Unsigned (onChunk s event).events (thoughtOf? event).toList := by
  have hother {type : Bytes} (htype : event.stringField "type" = type)
      (hne : type ≠ Bytes.ofString "content_block_delta") : thoughtOf? event = none :=
    if_neg fun hboth => hne (htype.symm.trans hboth.1)
  unfold onChunk
  dsimp only
  split
  · rename_i htype
    rw [hother htype (by decide)]
    exact unsigned_nil
  split
  · rename_i htype
    rw [hother htype (by decide)]
    exact unsigned_startBlock _ _ s
  split
  · rename_i htype
    exact unsigned_addDelta _ htype s
  rename_i hdelta
  rw [hother rfl hdelta]
  split
  · exact unsigned_stopBlock _ s
  split
  · exact unsigned_finish event s
  · exact unsigned_nil

theorem unsigned_overChunks (s : State) (events : List Json) :
    Unsigned (Step.overChunks onChunk s events).events (events.filterMap thoughtOf?) := by
  induction events generalizing s with
  | nil => exact unsigned_nil
  | cons event events ih =>
    rw [filterMap_cons_eq_append]
    exact (unsigned_onChunk s event).append (ih (onChunk s event).state)

/-- The end of a stream brings nothing. -/
theorem unsigned_wholeEvents (lines : List Bytes) :
    Unsigned (Step.wholeEvents onChunk onEnd {} lines)
      ((Chunk.objects lines).filterMap thoughtOf?) := by
  rw [Step.wholeEvents]
  dsimp only [onEnd]
  rw [List.append_nil]
  exact unsigned_overChunks {} (Chunk.objects lines)

/-- A stream whose lines report no error is written to its end. -/
theorem written {lines : List Bytes} (hlines : ∀ line ∈ lines, ¬ Chunk.Reports line) :
    ∃ fed, (Transcoder.claudeToGemini {}).feed lines = .ok fed ∧
      ∃ last, fed.state.onEnd = .ok last ∧
        (Step.wholeEvents onChunk onEnd {} lines).mapM GeminiChunk.render =
          .ok (fed.events ++ last.events) := by
  have htext := (keepsText.overChunks isText_fresh (Chunk.isText_of_mem_objects lines)).events
  exact Transcoder.exists_written Transcoder.typed_claudeToGemini
    (fun _ _ he => absurd he List.not_mem_nil) hlines fun e he =>
      GeminiChunk.exists_render (htext e he)

theorem Unsigned.not_carries (h : Unsigned xs thoughts) {chunk : GeminiChunk} (hchunk : chunk ∈ xs)
    (signature : Bytes) : ¬ Carries chunk signature := by
  rintro ⟨part, hpart, hsignature⟩
  cases (h.unsigned chunk hchunk part hpart).symm.trans hsignature

end ClaudeToGemini

/-! ## 5. All translations -/

/-- **Signatures are carried, but not by the deltas of a Claude stream.** Whole replies keep their
signed thoughts, one by one and in order, in both directions. A stream of a Gemini backend is
written to its end, every piece goes to the block that is open, and what is signed in its parts is
signed in its events. A stream of a Claude backend is written to its end with all of its thoughts,
and no chunk is signed: every signature is carried exactly when there is none. -/
theorem signatures_carried_where_no_delta_signs (reply : Json) (id : Bytes) {lines : List Bytes}
    (hlines : ∀ line ∈ lines, ¬ Chunk.Reports line) :
    Gemini.signedIn (Gemini.responseOfClaude reply) = ContentBlock.signedIn reply ∧
      ContentBlock.signedIn (Gemini.responseToClaude reply id) = Gemini.signedIn reply ∧
      (∃ fed, (Transcoder.geminiToClaude {}).feed lines = .ok fed ∧
        ∃ last, fed.state.onEnd = .ok last ∧
          ∃ events, events.mapM ClaudeEvent.render = .ok (fed.events ++ last.events) ∧
            openAfter? none events = some none ∧
            ClaudeEvent.signedIn events = (Chunk.objects lines).flatMap Gemini.signedIn) ∧
      ∃ fed, (Transcoder.claudeToGemini {}).feed lines = .ok fed ∧
        ∃ last, fed.state.onEnd = .ok last ∧
          ∃ chunks, chunks.mapM GeminiChunk.render = .ok (fed.events ++ last.events) ∧
            ClaudeToGemini.thoughtsIn chunks =
              (Chunk.objects lines).filterMap ClaudeToGemini.thoughtOf? ∧
            ((∀ signature ∈ (Chunk.objects lines).filterMap ClaudeToGemini.signatureOf?,
                ∃ chunk ∈ chunks, ClaudeToGemini.Carries chunk signature) ↔
              (Chunk.objects lines).filterMap ClaudeToGemini.signatureOf? = []) := by
  refine ⟨Gemini.signed_responseOfClaude reply, Gemini.signed_responseToClaude reply id, ?_, ?_⟩
  · obtain ⟨fed, hfed, last, hlast, hwritten⟩ := GeminiToClaude.written hlines
    exact ⟨fed, hfed, last, hlast, _, hwritten,
      (GeminiToClaude.grammar_wholeEvents lines).bracketed,
      GeminiToClaude.signedIn_wholeEvents lines⟩
  · obtain ⟨fed, hfed, last, hlast, hwritten⟩ := ClaudeToGemini.written hlines
    have hunsigned := ClaudeToGemini.unsigned_wholeEvents lines
    refine ⟨fed, hfed, last, hlast, _, hwritten, hunsigned.thoughtsIn_eq, fun hcarried => ?_, ?_⟩
    · refine List.eq_nil_iff_forall_not_mem.mpr fun signature hsignature => ?_
      obtain ⟨chunk, hchunk, hcarries⟩ := hcarried signature hsignature
      exact hunsigned.not_carries hchunk signature hcarries
    · intro hnone
      rw [hnone]
      exact List.forall_mem_nil _

/-- Two thoughts of a Claude reply, and two of a Gemini stream with a thought of a Claude stream
    behind them. -/
theorem signatures_carried_where_no_delta_signs_of_two_thoughts :
    let thinking (thought signature : Bytes) : Json := .object
      [("type", .str "thinking"), ("thinking", .str thought), ("signature", .str signature)]
    let reply : Json := .object [("content", .arr [thinking "a" "s", thinking "b" "t"])]
    let chunk (thought signature : Bytes) : Json := .object [("candidates", .arr [.object
      [("content", .object [("parts", .arr [.object [("text", .str thought),
        ("thought", .bool true), ("thoughtSignature", .str signature)]])])]])]
    let delta : Json := .object [("type", .str "content_block_delta"), ("delta", .object
      [("type", .str "thinking_delta"), ("thinking", .str "e")])]
    let signed (thought signature : Bytes) := [(thought, signature)]
    let lines := [chunk "c" "u", chunk "d" "v", delta].map fun object =>
      Bytes.ofString "data: " ++ object.render
    Gemini.signedIn (Gemini.responseOfClaude reply) = signed "a" "s" ++ signed "b" "t" ∧
      (∃ fed, (Transcoder.geminiToClaude {}).feed lines = .ok fed ∧
        ∃ last, fed.state.onEnd = .ok last ∧
          ∃ events, events.mapM ClaudeEvent.render = .ok (fed.events ++ last.events) ∧
            ClaudeEvent.signedIn events = signed "c" "u" ++ signed "d" "v") ∧
      ∃ fed, (Transcoder.claudeToGemini {}).feed lines = .ok fed ∧
        ∃ last, fed.state.onEnd = .ok last ∧
          ∃ chunks, chunks.mapM GeminiChunk.render = .ok (fed.events ++ last.events) ∧
            ClaudeToGemini.thoughtsIn chunks = ["e"] := by
  intro thinking reply chunk delta signed lines
  have hlines : ∀ line ∈ lines, (Chunk.ofLine line).data?.isSome = true := by decide +kernel
  obtain ⟨hreply, -, ⟨fed, hfed, last, hlast, events, hevents, -, hsigned⟩,
    fed', hfed', last', hlast', chunks, hchunks, hthoughts, -⟩ :=
    signatures_carried_where_no_delta_signs reply [] fun line hline =>
      Chunk.not_reports_of_data? (hlines line hline)
  have hobjects : ContentBlock.signedIn reply = signed "a" "s" ++ signed "b" "t" ∧
      (Chunk.objects lines).flatMap Gemini.signedIn = signed "c" "u" ++ signed "d" "v" ∧
      (Chunk.objects lines).filterMap ClaudeToGemini.thoughtOf? = ["e"] := by decide +kernel
  exact ⟨hreply.trans hobjects.1,
    ⟨fed, hfed, last, hlast, events, hevents, hsigned.trans hobjects.2.1⟩,
    fed', hfed', last', hlast', chunks, hchunks, hthoughts.trans hobjects.2.2⟩

/-- **A signature is lost.** It comes while the block of its thought is open, and the one chunk that
    the client is sent has the thought alone. -/
theorem streamed_signature_lost :
    let event (type : Bytes) (fields : List (Bytes × Json)) : Bytes :=
      Bytes.ofString "data: " ++
        (Json.object (("type", .str type) :: ("index", .int 0) :: fields)).render
    let delta (type key piece : Bytes) : Bytes :=
      event "content_block_delta" [("delta", .object [("type", .str type), (key, .str piece)])]
    let lines := [
      event "content_block_start" [("content_block", .object
        [("type", .str "thinking"), ("thinking", .str [])])],
      delta "thinking_delta" "thinking" "hmm", delta "signature_delta" "signature" "sig",
      event "content_block_stop" []]
    (Chunk.objects lines).filterMap ClaudeToGemini.signatureOf? = ["sig"] ∧
      ∃ fed, (Transcoder.claudeToGemini {}).feed lines = .ok fed ∧
        ∃ last, fed.state.onEnd = .ok last ∧
          ∃ chunks : List GeminiChunk,
            chunks.mapM GeminiChunk.render = .ok (fed.events ++ last.events) ∧
            ¬ ∃ chunk ∈ chunks, ClaudeToGemini.Carries chunk "sig" := by
  intro event delta lines
  have hlines : ∀ line ∈ lines, (Chunk.ofLine line).data?.isSome = true := by decide +kernel
  have hsignature : (Chunk.objects lines).filterMap ClaudeToGemini.signatureOf? = ["sig"] := by
    decide +kernel
  obtain ⟨fed, hfed, last, hlast, hwritten⟩ := ClaudeToGemini.written fun line hline =>
    Chunk.not_reports_of_data? (hlines line hline)
  refine ⟨hsignature, fed, hfed, last, hlast, _, hwritten, ?_⟩
  rintro ⟨chunk, hchunk, hcarries⟩
  exact (ClaudeToGemini.unsigned_wholeEvents lines).not_carries hchunk _ hcarries

end ChatRelay
