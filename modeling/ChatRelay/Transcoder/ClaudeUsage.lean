import ChatRelay.Json.Basic

/-!
# Usage of a Claude stream

A Claude stream reports its usage in parts, at the start of the message and at its end. The parts
are merged field by field: a later value replaces an earlier one unless it is null.
-/

namespace ChatRelay.ClaudeUsage

/-- The merged report, if any part has come; it is an object then. -/
abbrev Merged := Option (List (Bytes × Json))

/-- The report with one more part; a part that is no object changes nothing. -/
def merge (merged : Merged) (part : Json) : Merged :=
  match part with
  | .obj fields =>
    some ((fields.filter fun e => !e.2.isNull).foldl
      (fun m e => Table.insert m e.1 e.2) (merged.getD []))
  | _ => merged

/-- The usage part of the message that a stream starts with. -/
def ofMessageStart (event : Json) : Json :=
  match event.objectField? "message" with
  | some message => (message.field? "usage").getD .null
  | none => .null

/-- The usage part of a message delta. -/
def ofMessageDelta (event : Json) : Json :=
  (event.field? "usage").getD .null

end ChatRelay.ClaudeUsage
