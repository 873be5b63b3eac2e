import Mathlib.Data.List.Forall2
import ChatRelay.Proofs.ReadingLines
import ChatRelay.Proofs.Reporting

/-!
# Text cannot break the framing of events

A client takes a stream apart at its line feeds and reads the payload of each data line. What a
model says may hold line feeds, carriage returns and lines that look like data; none of that comes
through, because a payload is JSON, and JSON text holds no byte below the blank
(`Json.plain_render`).

* `Sse.Framed` -- the form of an event, with its payload: `Sse.payloads_of_framed` says that the
  payloads are read off the lines of such events;
* `Transcoder.Brings` -- the events that a transcoder brings on any lines, whether they fail or not:
  all of them have this form (`Transcoder.Frames`, the INVARIANT);
* `Transcoder.payloads_read_back` -- a client that reads the stream line by line, in whatever pieces
  it arrives, gets the payloads, one for each event.
-/

namespace ChatRelay

/-! ## 1. Text without control bytes -/

namespace Bytes

/-- No byte is below the blank: neither a line feed nor a carriage return, nor any other control
    byte. -/
def Plain (s : Bytes) : Prop :=
  ∀ b ∈ s, 0x20 ≤ b

instance (s : Bytes) : Decidable (Plain s) :=
  List.decidableBAll (fun b => 0x20 ≤ b) s

variable {s t : Bytes} {b : UInt8}

theorem Printable.plain (hs : Printable s) : Plain s :=
  fun b hb => (hs b hb).1

theorem Plain.cons (hb : 0x20 ≤ b) (hs : Plain s) : Plain (b :: s) :=
  List.forall_mem_cons.mpr ⟨hb, hs⟩

theorem Plain.append (hs : Plain s) (ht : Plain t) : Plain (s ++ t) :=
  List.forall_mem_append.mpr ⟨hs, ht⟩

/-- A line of such text is cut where it was closed, and nowhere else. -/
theorem Plain.bodyLines_append_newline (hs : Plain s) (later : Bytes) :
    bodyLines (s ++ 0x0A :: later) true = s :: bodyLines later true := by
  have hnewline : 0x0A ∉ s := fun hmem => absurd (hs _ hmem) (by decide)
  have hreturn : withoutReturn s = s := by
    rw [← LineReader.chop_eq, LineReader.chop, if_neg]
    intro hlast
    exact absurd (hs _ (List.mem_of_getLast? hlast)) (by decide)
  rw [Bytes.bodyLines_append_newline hnewline, hreturn]

end Bytes

namespace Json

open Bytes

theorem plain_quote (s : Bytes) : Plain (quote s) := by
  have hescaped : Plain (s.flatMap escapeByte) := by
    intro b hb
    obtain ⟨c, -, hb⟩ := List.mem_flatMap.mp hb
    obtain ⟨heq, hle⟩ | hprintable := escapeByte_cases c
    · rw [heq] at hb
      rwa [List.mem_singleton.mp hb]
    · exact hprintable.plain b hb
  exact (hescaped.append (by decide)).cons (by decide)

mutual

/-- **JSON text holds no control byte**, whatever the strings of the value hold, at any depth. -/
theorem plain_render : ∀ j : Json, Plain j.render
  | .null => by decide
  | .bool true => by decide
  | .bool false => by decide
  | .int n => (printable_ofInt n).plain
  | .double x => x.printable_render.plain
  | .str s => plain_quote s
  | .arr items => (plain_renderItems items).cons (by decide)
  | .obj fields => (plain_renderFields fields).cons (by decide)

theorem plain_renderItems : ∀ items : List Json, Plain (renderItems items)
  | [] => by decide
  | j :: rest => (plain_render j).append (plain_renderMoreItems rest)

theorem plain_renderMoreItems : ∀ items : List Json, Plain (renderMoreItems items)
  | [] => by decide
  | j :: rest => ((plain_render j).append (plain_renderMoreItems rest)).cons (by decide)

theorem plain_renderFields : ∀ fields : List (Bytes × Json), Plain (renderFields fields)
  | [] => by decide
  | (k, j) :: rest => (plain_quote k).append
      (((plain_render j).append (plain_renderMoreFields rest)).cons (by decide))

theorem plain_renderMoreFields : ∀ fields : List (Bytes × Json), Plain (renderMoreFields fields)
  | [] => by decide
  | (k, j) :: rest => ((plain_quote k).append
      (((plain_render j).append (plain_renderMoreFields rest)).cons (by decide))).cons (by decide)

end

theorem plain_of_dump {j : Json} {text : Bytes} (h : j.dump = .ok text) : Plain text := by
  obtain ⟨-, rfl⟩ := of_dump h
  exact plain_render j

end Json

/-! ## 2. Events and their lines -/

namespace Sse

open Bytes

/-- **The form of an event with its payload**: the payload is the text of an object. An event with a
    name has the type of the object for its name. -/
inductive Framed : Bool → Bytes → Bytes → Prop where
  | named {name payload : Bytes} {fields : List (Bytes × Json)}
      (type : (Json.obj fields).field? "type" = some (.str name)) (plain : Plain name)
      (dump : (Json.obj fields).dump = .ok payload) : Framed true (event name payload) payload
  | unnamed {payload : Bytes} {fields : List (Bytes × Json)}
      (dump : (Json.obj fields).dump = .ok payload) : Framed false (unnamed payload) payload

variable {named : Bool} {text payload later : Bytes}

theorem Framed.plain (h : Framed named text payload) : Plain payload := by
  cases h with
  | named type plain dump => exact Json.plain_of_dump dump
  | unnamed dump => exact Json.plain_of_dump dump

theorem payload?_data (payload : Bytes) :
    payload? (Bytes.ofString "data: " ++ payload) = some payload :=
  payload?_eq_some_iff.mpr (.inl rfl)

/-- An event is written with its name and its data only. -/
theorem event_inj {name name' data data' : Bytes} (hname : Plain name) (hname' : Plain name')
    (h : event name data = event name' data') : name = name' ∧ data = data' := by
  have hnewline {s : Bytes} (hs : Plain s) : 0x0A ∉ Bytes.ofString "event: " ++ s := fun hmem =>
    absurd ((Plain.append (by decide) hs) _ hmem) (by decide)
  have hevent (name data : Bytes) : event name data = (Bytes.ofString "event: " ++ name) ++
      0x0A :: (Bytes.ofString "data: " ++ (data ++ Bytes.ofString "\n\n")) := by
    simp only [event, List.append_assoc]
    rfl
  rw [hevent, hevent] at h
  have hfirst := congrArg (splitAtByte 0x0A) h
  rw [splitAtByte_append_sep (hnewline hname), splitAtByte_append_sep (hnewline hname')] at hfirst
  obtain rfl : name = name' := List.append_cancel_left (List.cons.inj hfirst).1
  have hrest := (List.cons.inj (List.append_cancel_left h)).2
  exact ⟨rfl, List.append_cancel_right (List.append_cancel_left hrest)⟩

/-- The lines of an event bring its payload, and they end with it. -/
theorem Framed.filterMap_payload? (h : Framed named text payload) (later : Bytes) :
    (bodyLines (text ++ later) true).filterMap payload? =
      payload :: (bodyLines later true).filterMap payload? := by
  have hdata : Plain (Bytes.ofString "data: " ++ payload) :=
    Plain.append (by decide) h.plain
  have hblank : Plain [] := by decide
  cases h with
  | @named name _ _ type plain dump =>
    have hname : Plain (Bytes.ofString "event: " ++ name) := Plain.append (by decide) plain
    have htext : event name payload ++ later = (Bytes.ofString "event: " ++ name) ++ 0x0A ::
        ((Bytes.ofString "data: " ++ payload) ++ 0x0A :: ([] ++ 0x0A :: later)) := by
      simp only [event, List.append_assoc]
      rfl
    have hnone : payload? (Bytes.ofString "event: " ++ name) = none := rfl
    rw [htext, hname.bodyLines_append_newline, hdata.bodyLines_append_newline,
      hblank.bodyLines_append_newline, List.filterMap_cons_none hnone,
      List.filterMap_cons_some (payload?_data payload), List.filterMap_cons_none rfl]
  | unnamed dump =>
    have htext : Sse.unnamed payload ++ later =
        (Bytes.ofString "data: " ++ payload) ++ 0x0A :: ([] ++ 0x0A :: later) := by
      simp only [Sse.unnamed, List.append_assoc]
      rfl
    rw [htext, hdata.bodyLines_append_newline, hblank.bodyLines_append_newline,
      List.filterMap_cons_some (payload?_data payload), List.filterMap_cons_none rfl]

/-- **The lines of events bring their payloads**, one for each event, in order. -/
theorem payloads_of_framed {events payloads : List Bytes}
    (h : List.Forall₂ (Framed named) events payloads) :
    (bodyLines events.flatten true).filterMap payload? = payloads := by
  induction h with
  | nil => rfl
  | cons hevent _ ih => rw [List.flatten_cons, hevent.filterMap_payload?, ih]

/-- Events that are framed have payloads. -/
theorem exists_payloads {events : List Bytes}
    (h : ∀ event ∈ events, ∃ payload, Framed named event payload) :
    ∃ payloads, List.Forall₂ (Framed named) events payloads := by
  induction events with
  | nil => exact ⟨[], .nil⟩
  | cons event events ih =>
    obtain ⟨⟨payload, hevent⟩, hrest⟩ := List.forall_mem_cons.mp h
    obtain ⟨payloads, hevents⟩ := ih hrest
    exact ⟨payload :: payloads, .cons hevent hevents⟩

/-- An event of a value that has its name for its type. -/
theorem framed_of_formatEvent {name text : Bytes} {value : Json} (plain : Plain name)
    (type : value.field? "type" = some (.str name)) (h : formatEvent name value = .ok text) :
    ∃ payload, Framed true text payload := by
  obtain ⟨payload, hdump, rfl⟩ := map_eq_ok_iff.mp h
  cases value with
  | obj fields => exact ⟨payload, .named type plain hdump⟩
  | _ => cases type

end Sse

namespace ClaudeEvent

theorem plain_name (e : ClaudeEvent) : Bytes.Plain e.name := by
  cases e with
  | blockStart => exact (by decide : Bytes.Plain "content_block_start")
  | blockDelta => exact (by decide : Bytes.Plain "content_block_delta")
  | blockStop => exact (by decide : Bytes.Plain "content_block_stop")
  | messageDelta => exact (by decide : Bytes.Plain "message_delta")

/-- The value of an event has its name for its type. -/
theorem field?_type_of_toJson {e : ClaudeEvent} {value : Json} (h : e.toJson = .ok value) :
    value.field? "type" = some (.str e.name) := by
  cases e with
  | blockStart index block =>
    cases h
    rfl
  | blockDelta index delta =>
    obtain ⟨delta, -, rfl⟩ := map_eq_ok_iff.mp h
    rfl
  | blockStop index =>
    cases h
    rfl
  | messageDelta stopReason usage =>
    cases h
    exact Json.field?_objectWith rfl

theorem framed_of_render (e : ClaudeEvent) {text : Bytes} (h : e.render = .ok text) :
    ∃ payload, Sse.Framed true text payload := by
  obtain ⟨value, hvalue, h⟩ := bind_eq_ok_iff.mp h
  exact Sse.framed_of_formatEvent e.plain_name (field?_type_of_toJson hvalue) h

end ClaudeEvent

namespace GeminiChunk

theorem exists_obj_toJson (c : GeminiChunk) : ∃ fields, c.toJson = .obj fields := by
  cases c <;> exact ⟨_, rfl⟩

theorem framed_of_render (c : GeminiChunk) {text : Bytes} (h : c.render = .ok text) :
    ∃ payload, Sse.Framed false text payload := by
  obtain ⟨payload, hdump, rfl⟩ := map_eq_ok_iff.mp h
  obtain ⟨fields, hfields⟩ := c.exists_obj_toJson
  rw [hfields] at hdump
  exact ⟨payload, .unnamed hdump⟩

end GeminiChunk

namespace ReplyEvent

theorem plain_name (e : ReplyEvent) : Bytes.Plain e.name := by
  cases e with
  | created => exact (by decide : Bytes.Plain "response.created")
  | textDelta => exact (by decide : Bytes.Plain "response.output_text.delta")
  | textDone => exact (by decide : Bytes.Plain "response.output_text.done")
  | completed => exact (by decide : Bytes.Plain "response.completed")

theorem field?_type_toJson (e : ReplyEvent) : e.toJson.field? "type" = some (.str e.name) := by
  cases e <;> rfl

theorem framed_of_render (e : ReplyEvent) {text : Bytes} (h : e.render = .ok text) :
    ∃ payload, Sse.Framed true text payload :=
  Sse.framed_of_formatEvent e.plain_name e.field?_type_toJson h

end ReplyEvent

/-! ## 3. Transcoders -/

namespace Transcoder

/-- Whether the events that a transcoder brings have names. -/
def names : Transcoder → Bool
  | openaiToClaude _ | geminiToClaude _ | openaiToReplies _ | claudeToReplies _ => true
  | openaiToGemini _ | claudeToGemini _ | passthrough _ => false

/-- **The invariant of a stream**: the events that were brought are framed, and the transcoder after
    them is of the kind that it was. -/
structure Frames (t : Transcoder) (events : List Bytes) (s : Transcoder) : Prop where
  events : ∀ event ∈ events, ∃ payload, Sse.Framed t.names event payload
  names_eq : s.names = t.names
  reads_eq : s.reads = t.reads

theorem frames_nil (t : Transcoder) : t.Frames [] t :=
  ⟨List.forall_mem_nil _, rfl, rfl⟩

theorem Frames.append {t s u : Transcoder} {events more : List Bytes} (h : t.Frames events s)
    (h' : s.Frames more u) : t.Frames (events ++ more) u := by
  refine ⟨List.forall_mem_append.mpr ⟨h.events, fun event hevent => ?_⟩,
    h'.names_eq.trans h.names_eq, h'.reads_eq.trans h.reads_eq⟩
  rw [← h.names_eq]
  exact h'.events event hevent

/-- The same of one step, which brings nothing if it fails. -/
def FramesStep (t : Transcoder) (attempt : Except RelayError (Step Transcoder Bytes)) : Prop :=
  t.Frames (t.taken attempt).events (t.taken attempt).transcoder

section

variable {σ ε : Type} {render : ε → Except RelayError Bytes} {wrap : σ → Transcoder}
  {component : Bytes} {onChunk : σ → Json → Step σ ε} {onEnd : σ → Step σ ε} {named : Bool}

/-- A step that is written brings events that are written. -/
theorem frames_write
    (hrender : ∀ e text, render e = .ok text → ∃ payload, Sse.Framed named text payload)
    (hnames : ∀ s, (wrap s).names = named) (hreads : ∀ s, (wrap s).reads = true) (s : σ)
    (attempt : Except RelayError (Step σ ε)) :
    (wrap s).FramesStep (attempt >>= write render wrap) := by
  cases hwritten : attempt >>= write render wrap with
  | error e => exact frames_nil _
  | ok written =>
    obtain ⟨step, -, hwrite⟩ := bind_eq_ok_iff.mp hwritten
    obtain ⟨events, hevents, rfl⟩ := write_eq_ok_iff.mp hwrite
    refine ⟨fun event hevent => ?_, ?_, ?_⟩
    · obtain ⟨e, -, he⟩ := exists_mem_of_mapM_ok hevents event hevent
      rw [hnames s]
      exact hrender e event he
    · exact (hnames _).trans (hnames s).symm
    · exact (hreads _).trans (hreads s).symm

/-- **A transcoder whose steps are written frames them all**, on any line and at the end. -/
theorem Typed.frames (ht : Typed wrap component onChunk onEnd render)
    (hrender : ∀ e text, render e = .ok text → ∃ payload, Sse.Framed named text payload)
    (hnames : ∀ s, (wrap s).names = named) (hreads : ∀ s, (wrap s).reads = true) (s : σ) :
    (∀ line, (wrap s).FramesStep ((wrap s).onLine line)) ∧ (wrap s).FramesStep (wrap s).onEnd := by
  refine ⟨fun line => ?_, ?_⟩
  · rw [ht.onLine_eq]
    exact frames_write hrender hnames hreads s _
  · have honEnd : (wrap s).onEnd = .ok (onEnd s) >>= write render wrap := ht.onEnd_eq s
    rw [honEnd]
    exact frames_write hrender hnames hreads s _

end

variable {t s : Transcoder} {events : List Bytes}

/-- **Every step frames its events**, of every transcoder that reads the lines. -/
theorem framesStep (h : t.reads = true) :
    (∀ line, t.FramesStep (t.onLine line)) ∧ t.FramesStep t.onEnd := by
  have hclaude (e : ClaudeEvent) (text : Bytes) (he : e.render = .ok text) := e.framed_of_render he
  have hgemini (c : GeminiChunk) (text : Bytes) (hc : c.render = .ok text) := c.framed_of_render hc
  have hreplies (e : ReplyEvent) (text : Bytes) (he : e.render = .ok text) := e.framed_of_render he
  cases t with
  | passthrough s => cases h
  | openaiToClaude s => exact typed_openaiToClaude.frames hclaude (fun _ => rfl) (fun _ => rfl) s
  | geminiToClaude s => exact typed_geminiToClaude.frames hclaude (fun _ => rfl) (fun _ => rfl) s
  | openaiToGemini s => exact typed_openaiToGemini.frames hgemini (fun _ => rfl) (fun _ => rfl) s
  | claudeToGemini s => exact typed_claudeToGemini.frames hgemini (fun _ => rfl) (fun _ => rfl) s
  | openaiToReplies w => exact typed_openaiToReplies.frames hreplies (fun _ => rfl) (fun _ => rfl) w
  | claudeToReplies s => exact typed_claudeToReplies.frames hreplies (fun _ => rfl) (fun _ => rfl) s

/-! ## 4. Whole streams -/

/-- **The events that lines and ends bring**, one after another, and the transcoder that they lead
    to. A step that fails brings nothing, and may be followed by others. -/
inductive Brings (t : Transcoder) : List Bytes → Transcoder → Prop where
  | start : Brings t [] t
  | line {events : List Bytes} {s : Transcoder} (h : Brings t events s) (line : Bytes) :
      Brings t (events ++ (s.take line).events) (s.take line).transcoder
  | atEnd {events : List Bytes} {s : Transcoder} (h : Brings t events s) :
      Brings t (events ++ (s.taken s.onEnd).events) (s.taken s.onEnd).transcoder

/-- What a stream comes to is brought. -/
theorem Brings.delivery (h : t.Brings events s) (lines : List Bytes)
    (failure : Option Disconnect) :
    ∃ u, t.Brings (events ++ (s.delivery lines failure).events) u := by
  induction lines generalizing s events with
  | nil =>
    have hend := h.atEnd
    rw [Transcoder.delivery]
    cases hstep : s.onEnd with
    | error e => exact ⟨s, by rwa [List.append_nil]⟩
    | ok step =>
      rw [hstep] at hend
      exact ⟨_, hend⟩
  | cons line lines ih =>
    have hline := h.line line
    rw [Transcoder.delivery]
    rw [take] at hline
    cases hstep : s.onLine line with
    | error e => exact ⟨s, by rwa [List.append_nil]⟩
    | ok step =>
      rw [hstep] at hline
      obtain ⟨u, hu⟩ := ih hline
      rw [List.append_assoc] at hu
      exact ⟨u, hu⟩

/-- **Every event that is brought is framed**, by induction on the steps. -/
theorem Brings.frames (h : t.Brings events s) (ht : t.reads = true) : t.Frames events s := by
  induction h with
  | start => exact frames_nil t
  | line _ line ih => exact ih.append ((framesStep (ih.reads_eq.trans ht)).1 line)
  | atEnd _ ih => exact ih.append (framesStep (ih.reads_eq.trans ht)).2

/-- **What a transcoder brings is read back event by event.** Whatever lines come from upstream, and
    whatever their strings hold:

    * every event is framed, with the text of an object as its payload, which holds no control byte;
    * a client that reads the events line by line, from a source that hands them out in pieces of
      any sizes and with any limit that no line is over, gets to the end; and the data lines among
      what it has read are the payloads, one for each event, in order. -/
theorem payloads_read_back (ht : t.reads = true) (h : t.Brings events s) :
    ∃ payloads,
      List.Forall₂ (fun event payload => Sse.Framed t.names event payload ∧ Bytes.Plain payload)
        events payloads ∧
      ∀ (σ : Type) [ByteSource σ] (source : σ) (limit : Nat), Delivers source events.flatten →
        Bytes.SegmentsFit limit events.flatten →
        (∃ lines, LineReader.Reads { limit } source lines) ∧
          ∀ lines, LineReader.Reads { limit } source lines →
            lines.filterMap Sse.payload? = payloads := by
  obtain ⟨payloads, hframed⟩ := Sse.exists_payloads (h.frames ht).events
  refine ⟨payloads, hframed.imp fun _ _ hevent => ⟨hevent, hevent.plain⟩, ?_⟩
  intro σ _ source limit hdelivers hfit
  have hreads := LineReader.reads_of_delivers hdelivers hfit
  refine ⟨⟨_, hreads⟩, fun lines hlines => ?_⟩
  rw [hlines.unique hreads]
  exact Sse.payloads_of_framed hframed

/-- A model that says what looks like an event, to a client that reads seven bytes at a time. -/
theorem payloads_read_back_of_fake_data :
    let t := openaiToClaude {}
    let line := Bytes.ofString
      "data: \x7b\"choices\":[\x7b\"delta\":\x7b\"content\":\"\\n\\ndata: 1\\r\\n\"\x7d\x7d]\x7d"
    let events := (t.delivery [line] none).events
    let body : Body := { rest := events.flatten, chunkSize := 7 }
    t.reads = true ∧ Delivers body events.flatten ∧ Bytes.SegmentsFit 101 events.flatten ∧
      ∃ lines, LineReader.Reads { limit := 101 } body lines ∧ lines.filterMap Sse.payload? =
        [ Bytes.ofString ("\x7b\"content_block\":\x7b\"text\":\"\",\"type\":\"text\"\x7d," ++
            "\"index\":0,\"type\":\"content_block_start\"\x7d"),
          Bytes.ofString ("\x7b\"delta\":\x7b\"text\":\"\\n\\ndata: 1\\r\\n\"," ++
            "\"type\":\"text_delta\"\x7d,\"index\":0,\"type\":\"content_block_delta\"\x7d"),
          Bytes.ofString "\x7b\"index\":0,\"type\":\"content_block_stop\"\x7d" ] := by
  intro t line events body
  have hfit : Bytes.SegmentsFit 101 events.flatten := by
    unfold Bytes.SegmentsFit
    decide +kernel
  have hdelivers : Delivers body events.flatten := Body.delivers_whole events.flatten 7
  obtain ⟨u, hbrings⟩ := Brings.delivery (t := t) .start [line] none
  rw [List.nil_append] at hbrings
  obtain ⟨payloads, hframed, hread⟩ := payloads_read_back rfl hbrings
  obtain ⟨⟨lines, hlines⟩, hall⟩ := hread Body body 101 hdelivers hfit
  have hpayloads := Sse.payloads_of_framed (hframed.imp fun _ _ h => h.1)
  refine ⟨rfl, hdelivers, hfit, lines, hlines, ?_⟩
  rw [hall lines hlines, ← hpayloads]
  decide +kernel

end Transcoder

end ChatRelay
