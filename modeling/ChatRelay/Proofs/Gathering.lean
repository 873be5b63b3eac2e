import ChatRelay.OpenAI.Completion
import ChatRelay.Proofs.Chunks
import ChatRelay.Proofs.ReaderPrefix

/-!
# Tool calls from pieces

The pieces of tool calls come in any order and in chunks; a call is delivered once its arguments
parse, and then it is forgotten. Whatever the order, each call is delivered once and as a whole.

* `gathered` -- the calls that are delivered while pieces come, chunk by chunk;
* `collect` -- the same for the pieces of one index alone. Indices do not interfere
  (`filter_gatheredByIndex`);
* `collect_cut` -- the pieces of one call, cut into chunks anyhow, deliver that call: not before its
  end, because no beginning of an object is another value, and not again, because what comes behind
  the end carries no id;
* `gathered_perm` -- so the pieces of many calls deliver these calls, in some order.
-/

namespace ChatRelay.PendingCall

/-- What a piece carries of its call. -/
def ofPiece (piece : Json) : PendingCall :=
  let function := (piece.field? "function").getD .null
  { id := piece.stringField "id"
    name := function.stringField "name"
    arguments := function.stringField "arguments" }

/-- The index of the call that a piece belongs to. -/
def indexOf (piece : Json) : Int :=
  Word.toInt32 ((piece.intField? "index").getD 0)

theorem add_ofPiece (piece : Json) : ({} : PendingCall).add piece = ofPiece piece := by
  have hkeep (text : Bytes) : (if text.isEmpty = true then [] else text) = text := by
    cases text <;> rfl
  rw [add, ofPiece]
  simp only [hkeep, List.nil_append]

/-- A piece without id and name brings arguments only. -/
theorem add_of_blank {c : PendingCall} {piece : Json} (hid : (ofPiece piece).id = [])
    (hname : (ofPiece piece).name = []) :
    c.add piece = { c with arguments := c.arguments ++ (ofPiece piece).arguments } := by
  have hid : piece.stringField "id" = [] := hid
  have hname : ((piece.field? "function").getD .null).stringField "name" = [] := hname
  rw [add]
  simp only [hid, hname, List.isEmpty_nil, if_true]
  rfl

theorem complete?_of_id_nil {c : PendingCall} (h : c.id = []) : c.complete? = none := by
  rw [complete?, h]
  rfl

/-- A call with an id and a name is complete as soon as its arguments parse. -/
theorem complete?_eq {c : PendingCall} (hid : c.id ≠ []) (hname : c.name ≠ []) :
    c.complete? = Json.parse? c.arguments := by
  rw [complete?, List.isEmpty_eq_false_iff.mpr hid, List.isEmpty_eq_false_iff.mpr hname]
  cases harguments : c.arguments with
  | nil => rfl
  | cons b rest => rfl

/-! ## 1. Chunk by chunk -/

/-- The complete calls with their indices. -/
def completedByIndex (calls : Table Int PendingCall) : List (Int × PendingCall × Json) :=
  calls.filterMap fun e => e.2.complete?.map fun arguments => (e.1, e.2, arguments)

/-- The calls that are delivered while pieces come, chunk by chunk. -/
def gathered : Table Int PendingCall → List (List Json) → List (PendingCall × Json)
  | _, [] => []
  | calls, pieces :: more =>
    completed (addPieces calls pieces) ++ gathered (incomplete (addPieces calls pieces)) more

/-- The same with the indices of the calls. -/
def gatheredByIndex :
    Table Int PendingCall → List (List Json) → List (Int × PendingCall × Json)
  | _, [] => []
  | calls, pieces :: more =>
    completedByIndex (addPieces calls pieces) ++
      gatheredByIndex (incomplete (addPieces calls pieces)) more

theorem gathered_eq_map (calls : Table Int PendingCall) (chunks : List (List Json)) :
    gathered calls chunks = (gatheredByIndex calls chunks).map (·.2) := by
  induction chunks generalizing calls with
  | nil => rfl
  | cons pieces chunks ih =>
    have hcompleted (calls : Table Int PendingCall) :
        completed calls = (completedByIndex calls).map (·.2) := by
      rw [completed, completedByIndex, List.map_filterMap]
      simp only [Option.map_map, Function.comp_def]
    rw [gathered, gatheredByIndex, List.map_append, ← hcompleted, ih]

/-! ## 2. One index alone -/

/-- What has come of the call of one index, with further pieces of it. -/
def advance (call : Option PendingCall) (pieces : List Json) : Option PendingCall :=
  pieces.foldl (fun call piece => some ((call.getD {}).add piece)) call

/-- The delivery of a call, if it is complete. -/
def delivered (call : Option PendingCall) : List (PendingCall × Json) :=
  (call.bind fun c => c.complete?.map (c, ·)).toList

/-- What stays of a call: it itself, unless it was delivered. -/
def kept (call : Option PendingCall) : Option PendingCall :=
  call.filter fun c => c.complete?.isNone

theorem delivered_eq_singleton {c : PendingCall} {arguments : Json}
    (h : c.complete? = some arguments) : delivered (some c) = [(c, arguments)] := by
  rw [delivered, Option.bind_some, h]
  rfl

theorem kept_eq_none {c : PendingCall} {arguments : Json} (h : c.complete? = some arguments) :
    kept (some c) = none := by
  rw [kept, Option.filter_some, h]
  rfl

theorem delivered_eq_nil {c : PendingCall} (h : c.complete? = none) : delivered (some c) = [] := by
  rw [delivered, Option.bind_some, h]
  rfl

theorem kept_eq_self {c : PendingCall} (h : c.complete? = none) : kept (some c) = some c := by
  rw [kept, Option.filter_some, h]
  rfl

/-- What is delivered while the pieces of one index come, chunk by chunk. -/
def collect : Option PendingCall → List (List Json) → List (PendingCall × Json)
  | _, [] => []
  | call, pieces :: more =>
    delivered (advance call pieces) ++ collect (kept (advance call pieces)) more

variable {calls : Table Int PendingCall} {pieces : List Json} {chunks : List (List Json)}

theorem sorted_addPieces (hs : Table.Sorted calls) (pieces : List Json) :
    Table.Sorted (addPieces calls pieces) := by
  induction pieces generalizing calls with
  | nil => exact hs
  | cons piece pieces ih =>
    refine ih ?_
    unfold addPiece
    split
    · exact Table.sorted_insert hs _ _
    · exact hs

/-- A lookup sees the pieces of its index only. -/
theorem find?_addPieces (hobjects : ∀ piece ∈ pieces, piece.isObject = true) (index : Int) :
    Table.find? (addPieces calls pieces) index =
      advance (Table.find? calls index) (pieces.filter (indexOf · = index)) := by
  induction pieces generalizing calls with
  | nil => rfl
  | cons piece pieces ih =>
    obtain ⟨hpiece, hpieces⟩ := List.forall_mem_cons.mp hobjects
    have hadd : addPiece calls piece = Table.insert calls (indexOf piece)
        (((Table.find? calls (indexOf piece)).getD {}).add piece) := if_pos hpiece
    show Table.find? (addPieces (addPiece calls piece) pieces) index = _
    rw [ih hpieces, hadd, Table.find?_insert]
    by_cases hindex : indexOf piece = index
    · rw [if_pos hindex.symm, List.filter_cons_of_pos (by exact decide_eq_true hindex), hindex]
      rfl
    · rw [if_neg (Ne.symm hindex), List.filter_cons_of_neg (by simpa using hindex)]

/-- The complete calls of one index. -/
theorem filter_completedByIndex (hs : Table.Sorted calls) (index : Int) :
    (completedByIndex calls).filter (·.1 = index) =
      (delivered (Table.find? calls index)).map (index, ·) := by
  have hcomm : (completedByIndex calls).filter (·.1 = index) =
      completedByIndex (calls.filter (·.1 = index)) := by
    unfold completedByIndex
    rw [List.filter_filterMap, List.filterMap_filter]
    refine congrArg (fun f => List.filterMap f calls) (funext fun e => ?_)
    cases e.2.complete? with
    | none => simp
    | some arguments => simp [Option.filter]
  rw [hcomm, Table.filter_key hs]
  cases Table.find? calls index with
  | none => rfl
  | some c => cases hc : c.complete? <;> simp [completedByIndex, delivered, hc]

/-- **Indices do not interfere**: what is delivered at one index depends on its pieces alone. -/
theorem filter_gatheredByIndex (hs : Table.Sorted calls)
    (hobjects : ∀ pieces ∈ chunks, ∀ piece ∈ pieces, piece.isObject = true) (index : Int) :
    (gatheredByIndex calls chunks).filter (·.1 = index) =
      (collect (Table.find? calls index)
        (chunks.map (·.filter (indexOf · = index)))).map (index, ·) := by
  induction chunks generalizing calls with
  | nil => rfl
  | cons pieces chunks ih =>
    obtain ⟨hpieces, hchunks⟩ := List.forall_mem_cons.mp hobjects
    have hsorted := sorted_addPieces hs pieces
    have hnext : Table.Sorted (incomplete (addPieces calls pieces)) := hsorted.filter _
    rw [gatheredByIndex, List.filter_append, filter_completedByIndex hsorted, ih hnext hchunks,
      incomplete, Table.find?_filter hsorted, find?_addPieces hpieces, List.map_cons, collect,
      List.map_append]
    rfl

/-! ## 3. One call in pieces -/

/-- Pieces without id and name. -/
def Blank (pieces : List Json) : Prop :=
  ∀ piece ∈ pieces, (ofPiece piece).id = [] ∧ (ofPiece piece).name = []

instance (pieces : List Json) : Decidable (Blank pieces) :=
  inferInstanceAs (Decidable (∀ piece ∈ pieces, _))

/-- The arguments that pieces bring. -/
def argumentsOf (pieces : List Json) : Bytes :=
  pieces.flatMap fun piece => (ofPiece piece).arguments

/-- The pieces of a call in their order. -/
structure CutInto (c : PendingCall) (pieces : List Json) : Prop where
  /-- The first piece carries the id and the name. -/
  first : pieces.head?.map (fun p => ((ofPiece p).id, (ofPiece p).name)) = some (c.id, c.name)
  /-- The others carry neither. -/
  rest : Blank pieces.tail
  /-- Their arguments make up those of the call. -/
  arguments : argumentsOf pieces = c.arguments

instance (c : PendingCall) (pieces : List Json) : Decidable (c.CutInto pieces) :=
  decidable_of_iff (_ ∧ _ ∧ _) ⟨fun ⟨h1, h2, h3⟩ => ⟨h1, h2, h3⟩, fun ⟨h1, h2, h3⟩ => ⟨h1, h2, h3⟩⟩

theorem advance_of_blank (h : Blank pieces) (c : PendingCall) :
    advance (some c) pieces = some { c with arguments := c.arguments ++ argumentsOf pieces } := by
  induction pieces generalizing c with
  | nil =>
    show some c = _
    rw [argumentsOf, List.flatMap_nil, List.append_nil]
  | cons piece pieces ih =>
    obtain ⟨⟨hid, hname⟩, hpieces⟩ := List.forall_mem_cons.mp h
    show advance (some (c.add piece)) pieces = _
    rw [add_of_blank hid hname, ih hpieces]
    show some { c with arguments := (c.arguments ++ (ofPiece piece).arguments) ++ _ } = _
    rw [List.append_assoc]
    rfl

/-- What has no id never gets complete, whatever arguments are still to come. -/
theorem collect_of_id_nil {call : Option PendingCall} (hid : (call.getD {}).id = [])
    (h : ∀ pieces ∈ chunks, Blank pieces) : collect call chunks = [] := by
  induction chunks generalizing call with
  | nil => rfl
  | cons pieces chunks ih =>
    obtain ⟨hpieces, hchunks⟩ := List.forall_mem_cons.mp h
    have hnext : ((advance call pieces).getD {}).id = [] := by
      cases pieces with
      | nil => exact hid
      | cons piece pieces =>
        obtain ⟨⟨hpiece, hname⟩, hrest⟩ := List.forall_mem_cons.mp hpieces
        show ((advance (some ((call.getD {}).add piece)) pieces).getD {}).id = []
        rw [add_of_blank hpiece hname, advance_of_blank hrest]
        exact hid
    rw [collect]
    generalize advance call pieces = next at hnext
    cases next with
    | none => exact ih rfl hchunks
    | some c =>
      have hc : c.complete? = none := complete?_of_id_nil hnext
      rw [delivered_eq_nil hc, kept_eq_self hc]
      exact ih hnext hchunks

variable {c : PendingCall} {fields : List (Bytes × Json)}

/-- **From its first piece on a call is delivered once.** `so` is what has come of its arguments,
    and the chunks hold the rest. -/
theorem collect_begun (hid : c.id ≠ []) (hname : c.name ≠ [])
    (hobject : Json.parse? c.arguments = some (.obj fields)) {so : Bytes}
    (hblank : ∀ pieces ∈ chunks, Blank pieces)
    (hrest : so ++ argumentsOf chunks.flatten = c.arguments) :
    ∃ d : PendingCall, d.id = c.id ∧ d.name = c.name ∧
      delivered (some { c with arguments := so }) ++
        collect (kept (some { c with arguments := so })) chunks = [(d, .obj fields)] := by
  have hcomplete (so : Bytes) : { c with arguments := so }.complete? = Json.parse? so :=
    complete?_eq hid hname
  induction chunks generalizing so with
  | nil =>
    -- nothing is left to come, and the whole is an object
    rw [List.flatten_nil, argumentsOf, List.flatMap_nil, List.append_nil] at hrest
    have hwhole : { c with arguments := so }.complete? = some (.obj fields) := by
      rw [hcomplete, hrest, hobject]
    refine ⟨{ c with arguments := so }, rfl, rfl, ?_⟩
    rw [delivered_eq_singleton hwhole]
    rfl
  | cons pieces chunks ih =>
    obtain ⟨hpieces, hchunks⟩ := List.forall_mem_cons.mp hblank
    cases hparse : { c with arguments := so }.complete? with
    | some j =>
      -- the end of the object has come, and nothing that follows carries an id
      have hso : Json.parse? so = some j := (hcomplete so).symm.trans hparse
      rw [← hrest] at hobject
      obtain rfl : j = .obj fields := Json.parse?_append_of_object hso hobject
      refine ⟨{ c with arguments := so }, rfl, rfl, ?_⟩
      rw [delivered_eq_singleton hparse, kept_eq_none hparse, collect_of_id_nil rfl hblank]
      rfl
    | none =>
      have hrest' : (so ++ argumentsOf pieces) ++ argumentsOf chunks.flatten = c.arguments := by
        rw [← hrest, List.append_assoc, List.flatten_cons, argumentsOf, argumentsOf, argumentsOf,
          List.flatMap_append]
      obtain ⟨d, hd, hd', hcollect⟩ := ih hchunks hrest'
      refine ⟨d, hd, hd', ?_⟩
      rw [delivered_eq_nil hparse, kept_eq_self hparse, collect, advance_of_blank hpieces]
      exact hcollect

/-- **The pieces of a call deliver it once**, however they are cut into chunks. -/
theorem collect_cut (hid : c.id ≠ []) (hname : c.name ≠ [])
    (hobject : Json.parse? c.arguments = some (.obj fields)) (hcut : CutInto c chunks.flatten) :
    ∃ d : PendingCall, d.id = c.id ∧ d.name = c.name ∧
      collect none chunks = [(d, .obj fields)] := by
  induction chunks with
  | nil => cases hcut.first
  | cons pieces chunks ih =>
    cases pieces with
    | nil => exact ih hcut
    | cons piece pieces =>
      obtain ⟨hfirst, hblank, harguments⟩ := hcut
      obtain ⟨hfirst, hfirst'⟩ := Prod.mk.inj (Option.some.inj hfirst)
      have hpieces : Blank pieces := fun p hp => hblank p (List.mem_append_left _ hp)
      have hchunks : ∀ pieces ∈ chunks, Blank pieces := fun ps hps p hp =>
        hblank p (List.mem_append_right _ (List.mem_flatten.mpr ⟨ps, hps, hp⟩))
      have hadvance : advance none (piece :: pieces) =
          some { c with arguments := argumentsOf (piece :: pieces) } := by
        show advance (some (({} : PendingCall).add piece)) pieces = _
        rw [add_ofPiece, advance_of_blank hpieces, hfirst, hfirst']
        rfl
      rw [collect, hadvance]
      refine collect_begun hid hname hobject hchunks ?_
      rw [← harguments, argumentsOf, argumentsOf, ← List.flatMap_append]
      rfl

/-! ## 4. All calls -/

/-- A call as it has to be: it has an id and a name, and its arguments are an object. -/
structure Proper (c : PendingCall) : Prop where
  id_ne : c.id ≠ []
  name_ne : c.name ≠ []
  object : ∃ fields, Json.parse? c.arguments = some (.obj fields)

/-- The block of a call that is delivered. -/
def blockOf (d : PendingCall × Json) : ContentBlock :=
  .toolUse d.1.id d.1.name d.2

/-- The block of a call as a whole. -/
def wholeBlock (c : PendingCall) : ContentBlock :=
  .toolUse c.id c.name (OpenAI.inputOfArguments c.arguments)

/-- A list is made up of its elements key by key. -/
theorem perm_flatMap_filter {α κ : Type} [DecidableEq κ] (key : α → κ) {keys : List κ}
    (hkeys : keys.Nodup) {xs : List α} (h : ∀ x ∈ xs, key x ∈ keys) :
    xs.Perm (keys.flatMap fun k => xs.filter (key · = k)) := by
  induction keys generalizing xs with
  | nil =>
    cases xs with
    | nil => exact List.Perm.nil
    | cons x xs => exact absurd (h x List.mem_cons_self) List.not_mem_nil
  | cons k keys ih =>
    obtain ⟨hk, hkeys⟩ := List.nodup_cons.mp hkeys
    have hothers : ∀ x ∈ xs.filter fun x => !decide (key x = k), key x ∈ keys := by
      intro x hx
      obtain ⟨hx, hne⟩ := List.mem_filter.mp hx
      rcases List.mem_cons.mp (h x hx) with heq | hmem
      · simp [heq] at hne
      · exact hmem
    have hperm := ih hkeys hothers
    -- the elements of the other keys are not touched by taking those of this one away
    have hsame : (keys.flatMap fun k' => (xs.filter fun x => !decide (key x = k)).filter
        (key · = k')) = keys.flatMap fun k' => xs.filter (key · = k') := by
      rw [List.flatMap_def, List.flatMap_def]
      refine congrArg List.flatten (List.map_congr_left fun k' hk' => ?_)
      rw [List.filter_filter]
      refine List.filter_congr fun x _ => ?_
      by_cases hx : key x = k'
      · have hne : k' ≠ k := fun heq => hk (heq ▸ hk')
        simp [hx, hne]
      · simp [hx]
    rw [hsame] at hperm
    exact ((List.filter_append_perm (fun x => decide (key x = k)) xs).symm).trans
      (hperm.append_left _)

variable {placed : List (Int × PendingCall)}

/-- **Calls in pieces are delivered once each**, in some order, when each has an index of its own
    and the pieces of each make it up. -/
theorem gathered_perm (hdistinct : (placed.map (·.1)).Nodup)
    (hproper : ∀ e ∈ placed, e.2.Proper)
    (hpieces : ∀ pieces ∈ chunks, ∀ piece ∈ pieces,
      piece.isObject = true ∧ indexOf piece ∈ placed.map (·.1))
    (hcut : ∀ e ∈ placed, CutInto e.2 (chunks.flatten.filter (indexOf · = e.1))) :
    ((gathered [] chunks).map blockOf).Perm (placed.map fun e => wholeBlock e.2) := by
  have hindex (index : Int) : (gatheredByIndex [] chunks).filter (·.1 = index) =
      (collect none (chunks.map (·.filter (indexOf · = index)))).map (index, ·) :=
    filter_gatheredByIndex List.Pairwise.nil (fun ps hps p hp => (hpieces ps hps p hp).1) index
  have hkeys : ∀ d ∈ gatheredByIndex [] chunks, d.1 ∈ placed.map (·.1) := by
    intro d hd
    by_cases hkey : d.1 ∈ placed.map (·.1)
    · exact hkey
    exfalso
    -- no piece bears this index, and so nothing is delivered there
    have hnone : collect none (chunks.map (·.filter (indexOf · = d.1))) = [] := by
      refine collect_of_id_nil rfl fun pieces hmem => ?_
      obtain ⟨ps, hps, rfl⟩ := List.mem_map.mp hmem
      intro p hp
      obtain ⟨hp, heq⟩ := List.mem_filter.mp hp
      exact absurd (of_decide_eq_true heq ▸ (hpieces ps hps p hp).2) hkey
    have hmem : d ∈ (gatheredByIndex [] chunks).filter (·.1 = d.1) :=
      List.mem_filter.mpr ⟨hd, decide_eq_true rfl⟩
    rw [hindex d.1, hnone] at hmem
    exact List.not_mem_nil hmem
  have hone : ∀ e ∈ placed, ((gatheredByIndex [] chunks).filter (·.1 = e.1)).map
      (fun d => blockOf d.2) = [wholeBlock e.2] := by
    intro e he
    obtain ⟨hid, hname, fields, hobject⟩ := hproper e he
    have hcut' : CutInto e.2 (chunks.map (·.filter (indexOf · = e.1))).flatten := by
      rw [← List.filter_flatten]
      exact hcut e he
    obtain ⟨d, hd, hd', hcollect⟩ := collect_cut hid hname hobject hcut'
    rw [hindex e.1, hcollect, wholeBlock, OpenAI.inputOfArguments, hobject, ← hd, ← hd']
    rfl
  have hperm := (perm_flatMap_filter Prod.fst hdistinct hkeys).map fun d => blockOf d.2
  have hwhole : ((placed.map (·.1)).flatMap fun k =>
      (gatheredByIndex [] chunks).filter (·.1 = k)).map (fun d => blockOf d.2) =
        placed.map fun e => wholeBlock e.2 := by
    rw [List.flatMap_map, List.map_flatMap, List.map_eq_flatMap, List.flatMap_def, List.flatMap_def]
    exact congrArg List.flatten (List.map_congr_left hone)
  rw [hwhole] at hperm
  rw [gathered_eq_map, List.map_map]
  exact hperm

/-! ## 5. Between chunks -/

/-- No call is complete, as between chunks. -/
def Settled (calls : Table Int PendingCall) : Prop :=
  ∀ e ∈ calls, e.2.complete? = none

theorem settled_incomplete (calls : Table Int PendingCall) : Settled (incomplete calls) := by
  intro e he
  exact Option.isNone_iff_eq_none.mp (List.mem_filter.mp he).2

/-- A chunk without pieces changes nothing. -/
theorem Settled.completed (h : Settled calls) : completed calls = [] := by
  refine List.filterMap_eq_nil_iff.mpr fun e he => ?_
  rw [h e he]
  rfl

theorem Settled.incomplete (h : Settled calls) : incomplete calls = calls :=
  List.filter_eq_self.mpr fun e he => by rw [h e he]; rfl

/-- The ids and names of the calls are UTF-8. -/
def AreText (calls : Table Int PendingCall) : Prop :=
  ∀ e ∈ calls, Utf8.valid e.2.id = true ∧ Utf8.valid e.2.name = true

theorem AreText.addPiece (h : AreText calls) {piece : Json} (hpiece : piece.isText = true) :
    AreText (addPiece calls piece) := by
  unfold PendingCall.addPiece
  split
  · intro e he
    rcases Table.mem_insert he with rfl | he
    · -- the id and the name are those of the piece or were there before
      have hfunction : ((piece.field? "function").getD .null).isText = true :=
        Json.isText_fieldD hpiece rfl
      have hold : Utf8.valid ((Table.find? calls (indexOf piece)).getD {}).id = true ∧
          Utf8.valid ((Table.find? calls (indexOf piece)).getD {}).name = true := by
        cases hfind : Table.find? calls (indexOf piece) with
        | none => exact ⟨rfl, rfl⟩
        | some c => exact h _ (Table.mem_of_find? hfind)
      refine ⟨?_, ?_⟩
      · show Utf8.valid (if _ then _ else _) = true
        split
        · exact hold.1
        · exact Json.valid_stringField hpiece
      · show Utf8.valid (if _ then _ else _) = true
        split
        · exact hold.2
        · exact Json.valid_stringField hfunction
    · exact h e he
  · exact h

theorem AreText.addPieces (h : AreText calls) (hpieces : ∀ piece ∈ pieces, piece.isText = true) :
    AreText (addPieces calls pieces) := by
  induction pieces generalizing calls with
  | nil => exact h
  | cons piece pieces ih =>
    obtain ⟨hpiece, hpieces⟩ := List.forall_mem_cons.mp hpieces
    exact ih (h.addPiece hpiece) hpieces

theorem AreText.incomplete (h : AreText calls) : AreText (incomplete calls) :=
  fun e he => h e (List.mem_filter.mp he).1

/-- What is delivered is text: the arguments were read. -/
theorem AreText.completed (h : AreText calls) :
    ∀ d ∈ completed calls, Utf8.valid d.1.id = true ∧ Utf8.valid d.1.name = true ∧
      d.2.isText = true := by
  intro d hd
  obtain ⟨e, he, hcomplete⟩ := List.mem_filterMap.mp hd
  obtain ⟨arguments, harguments, rfl⟩ := Option.map_eq_some_iff.mp hcomplete
  refine ⟨(h e he).1, (h e he).2, ?_⟩
  unfold complete? at harguments
  split at harguments
  · cases harguments
  · exact Json.isText_of_parse? harguments

end ChatRelay.PendingCall
