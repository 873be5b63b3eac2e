import ChatRelay.Proofs.Recordings
import ChatRelay.Proofs.ReplyObjects

/-!
# What a session is charged with

A session keeps the tokens that its replies have cost. They are charged item by item, and each item
of a reply is charged with the cost of the whole reply (`SessionStore.Exchange.sum_charges`). So the
total is the cost of the replies only as long as each of them has a single item
(`RepliesClient.record_charges_each_item`).
-/

namespace ChatRelay

/-! ## 1. Sums of words -/

namespace Word

variable {a b : Int}

theorem toInt64_eq_toInt64_iff :
    toInt64 a = toInt64 b ↔ (0x10000000000000000 : Int) ∣ a - b := by
  unfold toInt64
  constructor
  · intro h
    have hmod := Int.bmod_eq_bmod_iff_bmod_sub_eq_zero.mp h
    exact Int.dvd_of_bmod_eq_zero hmod
  · intro h
    exact Int.bmod_eq_bmod_iff_bmod_sub_eq_zero.mpr (Int.bmod_eq_zero_of_dvd h)

end Word

/-! ## 2. Charges -/

namespace SessionStore

/-- **The charges of an exchange**: for each item of its output the cost of the reply. -/
theorem Exchange.sum_charges (e : Exchange) :
    (e.charges.map (·.2)).sum = e.output.length * e.tokens := by
  have hinput : (e.input.map fun _ => (0 : Int)).sum = 0 := by simp
  have houtput : (e.output.map fun _ => e.tokens).sum = e.output.length * e.tokens := by simp
  rw [charges, List.map_append, List.sum_append, List.map_map, List.map_map]
  exact (congrArg₂ (· + ·) hinput houtput).trans (Int.zero_add _)

end SessionStore

/-! ## 3. Totals -/

namespace RepliesClient

variable {asked : Asked} {sessions : SessionStore} {input : List Item}

/-- **A recorded reply is charged once for each of its items.** The session that it goes to grows by
its cost exactly when what the further items are charged with vanishes in a word; as long as the
total stays within a word, that is when the reply has one item or cost nothing. -/
theorem record_charges_each_item (reply : Json) (freshId : Bytes) (hsound : sessions.Sound)
    (hinput : Item.ofInput asked.input = .ok input) :
    let session := (sessions.resume asked.previousId freshId).1
    let count : Int := (Reply.outputItems reply).length
    let tokens := (Usage.ofReport ((reply.field? "usage").getD .null)).totalTokens
    ∃ after, Table.find? (record asked reply sessions freshId).1.sessions session.id = some after ∧
      after.totalTokens = Word.toInt64 (session.totalTokens + count * tokens) ∧
      (after.totalTokens = Word.toInt64 (session.totalTokens + tokens) ↔
        (0x10000000000000000 : Int) ∣ (count - 1) * tokens) ∧
      (Word.IsInt64 (session.totalTokens + count * tokens) →
        (after.totalTokens = session.totalTokens + tokens ↔ count = 1 ∨ tokens = 0)) := by
  intro session count tokens
  let r : Recording := ⟨asked, reply, freshId⟩
  have hthere : Table.find? (sessions.resume asked.previousId freshId).2.sessions session.id =
      some session := hsound.find?_resume asked.previousId freshId
  have hfind : Table.find? (record asked reply sessions freshId).1.sessions session.id =
      some (session.changed r.changes) := by
    rw [r.store_record, SessionStore.find?_sessions_changed, if_pos rfl, hthere]
    rfl
  have hcharges : (r.changes.map SessionStore.Change.tokens).sum = count * tokens := by
    rw [r.tokens_changes, Recording.tokens, Recording.exchange?, hinput]
    exact SessionStore.Exchange.sum_charges (exchangeOf input reply)
  have htotal : (session.changed r.changes).totalTokens =
      Word.toInt64 (session.totalTokens + count * tokens) := by
    have hword := (hsound.resume asked.previousId freshId).isWord hthere
    rw [Session.totalTokens_changed session r.changes hword, hcharges]
  refine ⟨_, hfind, htotal, ?_, fun hsum => ?_⟩
  · rw [htotal, Word.toInt64_eq_toInt64_iff, Int.sub_mul, Int.one_mul, Int.add_sub_add_left]
  · rw [htotal, Word.toInt64_eq hsum.1 hsum.2, Int.add_right_inj]
    exact mul_left_eq_self₀

/-- A reply of one text, in a session that was charged before. -/
theorem record_charges_each_item_of_one_text :
    let first : SessionStore :=
      (({} : SessionStore).resume [] "s").2.changed "s"
        [.append (Item.ofText "a") 7, .recordReply "r"]
    let reply : Json := .object [("id", .str "q"),
      ("output", .arr [.object [("type", .str "text"), ("content", .str "b")]]),
      ("usage", .object [("input_tokens", .int 2), ("output_tokens", .int 3)])]
    let asked : Asked := { previousId := "r", input := .str "more" }
    ∃ after, Table.find? (record asked reply first "t").1.sessions "s" = some after ∧
      after.totalTokens = 7 + 5 := by
  intro first reply asked
  have hfirst : first.Sound := (SessionStore.sound_empty.resume [] "s").changed "s" _
  have hinput : Item.ofInput asked.input = .ok [Item.ofText "more"] := rfl
  obtain ⟨after, hfind, -, -, htotal⟩ := record_charges_each_item reply "t" hfirst hinput
  refine ⟨after, hfind, (htotal ⟨?_, ?_⟩).mpr (.inl ?_)⟩ <;> decide +kernel

/-- A reply in two text blocks is charged twice, and one without a text block not at all. -/
theorem split_reply_charged_twice :
    let usage : Bytes := "\"usage\":\x7b\"input_tokens\":8,\"output_tokens\":2\x7d\x7d"
    let text : Bytes := "\x7b\"type\":\"text\",\"text\":\"a\"\x7d"
    let split : Bytes := "\x7b\"content\":[" ++ text ++ "," ++ text ++ "]," ++ usage
    let silent : Bytes := "\x7b\"content\":[]," ++ usage
    let cost (body : Bytes) : Option Int :=
      (replyObject .claude body [] (Identifier.reply 0)).toOption.map fun object =>
        (Usage.ofReport ((object.field? "usage").getD .null)).totalTokens
    let totals (body : Bytes) : List Int :=
      (RepliesClient.reply .claude { input := .str "hello" } body {} 0).1.sessions.map
        (·.2.totalTokens)
    cost split = some 10 ∧ totals split = [20] ∧ cost silent = some 10 ∧ totals silent = [0] := by
  decide +kernel

end RepliesClient

end ChatRelay
