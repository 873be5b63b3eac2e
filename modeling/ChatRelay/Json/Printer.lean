import ChatRelay.Json.Basic
import ChatRelay.Number.Decimal
import ChatRelay.Text.Utf8

/-!
# Writing JSON

`render` writes a value compactly, keys in their table's order. Within strings only the quote, the
backslash and bytes below 0x20 are escaped; everything else is written as it is. `dump` is the
writer that the library uses: it refuses a value that holds a string which is not UTF-8.
-/

namespace ChatRelay.Json

/-! ## 1. Strings -/

/-- One byte inside quotes. -/
def escapeByte (b : UInt8) : Bytes :=
  if b = 0x22 then [0x5C, 0x22]
  else if b = 0x5C then [0x5C, 0x5C]
  else if 0x20 ≤ b then [b]
  else if b = 0x08 then [0x5C, Bytes.ascii 'b']
  else if b = 0x0C then [0x5C, Bytes.ascii 'f']
  else if b = 0x0A then [0x5C, Bytes.ascii 'n']
  else if b = 0x0D then [0x5C, Bytes.ascii 'r']
  else if b = 0x09 then [0x5C, Bytes.ascii 't']
  else [0x5C, Bytes.ascii 'u'] ++ Bytes.hex 4 b.toNat

/-- A string in quotes. -/
def quote (s : Bytes) : Bytes :=
  0x22 :: (s.flatMap escapeByte ++ [0x22])

/-! ## 2. Values -/

mutual

/-- The compact text of a value. -/
def render : Json → Bytes
  | .null => "null"
  | .bool true => "true"
  | .bool false => "false"
  | .int n => Bytes.ofInt n
  | .double x => x.render
  | .str s => quote s
  | .arr items => 0x5B :: renderItems items
  | .obj fields => 0x7B :: renderFields fields

/-- The elements of an array and its closing bracket. -/
def renderItems : List Json → Bytes
  | [] => [0x5D]
  | j :: rest => render j ++ renderMoreItems rest

/-- The elements after the first one, each behind a comma. -/
def renderMoreItems : List Json → Bytes
  | [] => [0x5D]
  | j :: rest => 0x2C :: (render j ++ renderMoreItems rest)

/-- The fields of an object and its closing brace. -/
def renderFields : List (Bytes × Json) → Bytes
  | [] => [0x7D]
  | (k, j) :: rest => quote k ++ 0x3A :: (render j ++ renderMoreFields rest)

/-- The fields after the first one, each behind a comma. -/
def renderMoreFields : List (Bytes × Json) → Bytes
  | [] => [0x7D]
  | (k, j) :: rest => 0x2C :: (quote k ++ 0x3A :: (render j ++ renderMoreFields rest))

end

mutual

/-- Whether every string and key of the value is UTF-8. -/
def isText : Json → Bool
  | .str s => Utf8.valid s
  | .arr items => itemsAreText items
  | .obj fields => fieldsAreText fields
  | .null | .bool _ | .int _ | .double _ => true

/-- `isText` of every element. -/
def itemsAreText : List Json → Bool
  | [] => true
  | j :: rest => isText j && itemsAreText rest

/-- `isText` of every key and value. -/
def fieldsAreText : List (Bytes × Json) → Bool
  | [] => true
  | (k, j) :: rest => Utf8.valid k && isText j && fieldsAreText rest

end

/-- The compact text of a value whose strings are all UTF-8. -/
def dump (j : Json) : Except RelayError Bytes :=
  if j.isText then .ok j.render else .error .wrongJsonType

/-- The text of a value that stands for text: a string as it is, any other value as JSON. -/
def textOrDump : Json → Except RelayError Bytes
  | .str s => .ok s
  | j => j.dump

theorem dump_of_isText {j : Json} (h : j.isText = true) : j.dump = .ok j.render := by
  simp [dump, h]

end ChatRelay.Json
