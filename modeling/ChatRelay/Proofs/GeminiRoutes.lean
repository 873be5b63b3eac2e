import ChatRelay.Gemini.Route
import ChatRelay.Proofs.Substrings

/-!
# Routes written and read

The path that is written for a route (`Route.endpoint`), below any path of a server, reads back as
that route. The reader takes what follows the first `/models/` for the model and its method, so the
path before must not bring such a segment of its own, alone or together with the one that follows.
-/

namespace ChatRelay.Gemini.Route

variable {before path model called query : Bytes} {route : Route}

/-- The method that a path ends in, for whole replies and for streams. -/
def method (stream : Bool) : Bytes :=
  if stream then "streamGenerateContent" else "generateContent"

/-- An endpoint is the mark of models, then the model, a colon and the method. -/
theorem endpoint_eq (route : Route) :
    route.endpoint = Bytes.ofString "/models/" ++ (route.model ++ 0x3A :: method route.stream) := by
  have hmethod (stream : Bool) :
      Bytes.ofString (if stream then ":streamGenerateContent" else ":generateContent") =
        0x3A :: method stream := by
    cases stream <;> decide
  rw [endpoint, hmethod, List.append_assoc]

/-- The segment of an endpoint is found, whatever path stands before it. -/
theorem segment_append_endpoint
    (h : ¬ Bytes.ofString "/models/" <:+: before ++ Bytes.ofString "/models") :
    segment (before ++ route.endpoint) = route.model ++ 0x3A :: method route.stream := by
  have hneedle : Bytes.ofString "/models/" ≠ [] := by decide
  have hbegins : Bytes.ofString "/models" = (Bytes.ofString "/models/").dropLast := by decide
  rw [hbegins] at h
  rw [segment, endpoint_eq, ← List.append_assoc, Bytes.afterFirst?_append hneedle h,
    Option.getD_some]

/-- The route that a segment says: the model up to the first colon, and the method behind it. -/
theorem ofPath_of_segment (h : segment path = model ++ 0x3A :: called) (hcolon : 0x3A ∉ model)
    (hmodel : model ≠ []) :
    ofPath path query = .ok
      ⟨model, called == Bytes.ofString "streamGenerateContent" || query.contains "alt=sse"⟩ := by
  have hnamed : model.isEmpty = false := List.isEmpty_eq_false_iff.mpr hmodel
  simp only [ofPath, h, Bytes.cut?_append_sep hcolon, Option.getD_some, hnamed, Bool.false_eq_true,
    if_false]

/-- **A written route reads back.** Its model may be any name that is not empty and has no colon;
the path before it must not have `/models/`, also not across its end; and the query must not ask for
a stream where the route does not. -/
theorem ofPath_append_endpoint (route : Route) (before query : Bytes) (hmodel : route.model ≠ [])
    (hcolon : 0x3A ∉ route.model)
    (hbefore : ¬ Bytes.ofString "/models/" <:+: before ++ Bytes.ofString "/models")
    (hquery : route.stream = false → ¬ Bytes.ofString "alt=sse" <:+: query) :
    ofPath (before ++ route.endpoint) query = .ok route := by
  rw [ofPath_of_segment (segment_append_endpoint hbefore) hcolon hmodel]
  obtain ⟨model, stream⟩ := route
  cases stream with
  | true =>
    have hcalled : (method true == Bytes.ofString "streamGenerateContent") = true := by decide
    rw [hcalled, Bool.true_or]
  | false =>
    have hcalled : (method false == Bytes.ofString "streamGenerateContent") = false := by decide
    have hplain : Bytes.contains query (Bytes.ofString "alt=sse") = false :=
      Bool.eq_false_iff.mpr fun h => hquery rfl (Bytes.contains_iff.mp h)
    rw [hcalled, hplain, Bool.or_false]

/-- The name has a slash and the mark itself, and the path before it all of the mark but its end. -/
theorem ofPath_append_endpoint_nested :
    let route : Route := { model := "tuned/models/m", stream := false }
    ofPath (Bytes.ofString "/v1beta//model" ++ route.endpoint) "alt=json" = .ok route := by
  intro route
  have hmodel : route.model ≠ [] := by decide
  have hcolon : 0x3A ∉ route.model := by decide +kernel
  refine ofPath_append_endpoint route _ _ hmodel hcolon ?_ ?_
  · rw [← Bytes.contains_iff]
    decide +kernel
  · rw [← Bytes.contains_iff]
    decide +kernel

end ChatRelay.Gemini.Route
