import ChatRelay.Json.Printer

/-!
# Server-sent events

An event is written as its name and one line of data, closed by a blank line. A reader takes the
payload of each data line; the other lines do not matter to it.
-/

namespace ChatRelay.Sse

/-- The payload of a data line: what follows `data:` and at most one space. -/
def payload? (line : Bytes) : Option Bytes :=
  if line.startsWith "data:" then
    match line.drop 5 with
    | 0x20 :: rest => some rest
    | rest => some rest
  else none

/-- An event with a name. -/
def event (name data : Bytes) : Bytes :=
  Bytes.ofString "event: " ++ name ++ Bytes.ofString "\ndata: " ++ data ++ Bytes.ofString "\n\n"

/-- An event without a name. -/
def unnamed (data : Bytes) : Bytes :=
  Bytes.ofString "data: " ++ data ++ Bytes.ofString "\n\n"

/-- The event of a name and a value. -/
def formatEvent (name : Bytes) (value : Json) : Except RelayError Bytes :=
  value.dump.map (event name)

end ChatRelay.Sse
