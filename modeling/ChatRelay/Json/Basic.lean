import ChatRelay.Error
import ChatRelay.Number.Word
import ChatRelay.Table

/-!
# JSON values

The data format of every body and every stream chunk. An object is a table: its keys are in
increasing byte order and each occurs once. Integers and doubles are told apart, because they are
written differently.

Reading a field is lenient (`stringField`, `boolField`, `intField?`): a missing field or one of
another type counts as the fallback, on any value. Only `valueD` insists on an object.
-/

namespace ChatRelay

inductive Json where
  | null
  | bool (b : Bool)
  /-- An integer from `-2 ^ 63` to `2 ^ 64 - 1`. -/
  | int (n : Int)
  | double (x : Binary64)
  | str (s : Bytes)
  | arr (items : List Json)
  /-- The fields form a table. -/
  | obj (fields : List (Bytes × Json))
  deriving Inhabited

namespace Json

/-! ## 1. Equality -/

mutual

/-- Equality of values. -/
def decEq : (a b : Json) → Decidable (a = b)
  | .null, .null => isTrue rfl
  | .bool a, .bool b => if h : a = b then isTrue (h ▸ rfl) else isFalse (by simp [h])
  | .int a, .int b => if h : a = b then isTrue (h ▸ rfl) else isFalse (by simp [h])
  | .double a, .double b => if h : a = b then isTrue (h ▸ rfl) else isFalse (by simp [h])
  | .str a, .str b => if h : a = b then isTrue (h ▸ rfl) else isFalse (by simp [h])
  | .arr a, .arr b =>
    match decEqItems a b with
    | isTrue h => isTrue (h ▸ rfl)
    | isFalse h => isFalse (by simp [h])
  | .obj a, .obj b =>
    match decEqFields a b with
    | isTrue h => isTrue (h ▸ rfl)
    | isFalse h => isFalse (by simp [h])
  | .null, .bool _ | .null, .int _ | .null, .double _ | .null, .str _ | .null, .arr _
  | .null, .obj _ | .bool _, .null | .bool _, .int _ | .bool _, .double _ | .bool _, .str _
  | .bool _, .arr _ | .bool _, .obj _ | .int _, .null | .int _, .bool _ | .int _, .double _
  | .int _, .str _ | .int _, .arr _ | .int _, .obj _ | .double _, .null | .double _, .bool _
  | .double _, .int _ | .double _, .str _ | .double _, .arr _ | .double _, .obj _
  | .str _, .null | .str _, .bool _ | .str _, .int _ | .str _, .double _ | .str _, .arr _
  | .str _, .obj _ | .arr _, .null | .arr _, .bool _ | .arr _, .int _ | .arr _, .double _
  | .arr _, .str _ | .arr _, .obj _ | .obj _, .null | .obj _, .bool _ | .obj _, .int _
  | .obj _, .double _ | .obj _, .str _ | .obj _, .arr _ => isFalse (by simp)

/-- Equality of lists of values. -/
def decEqItems : (a b : List Json) → Decidable (a = b)
  | [], [] => isTrue rfl
  | a :: as, b :: bs =>
    match decEq a b, decEqItems as bs with
    | isTrue h, isTrue h' => isTrue (h ▸ h' ▸ rfl)
    | isFalse h, _ => isFalse (by simp [h])
    | _, isFalse h => isFalse (by simp [h])
  | [], _ :: _ | _ :: _, [] => isFalse (by simp)

/-- Equality of lists of fields. -/
def decEqFields : (a b : List (Bytes × Json)) → Decidable (a = b)
  | [], [] => isTrue rfl
  | (k, a) :: as, (l, b) :: bs =>
    if hk : k = l then
      match decEq a b, decEqFields as bs with
      | isTrue h, isTrue h' => isTrue (hk ▸ h ▸ h' ▸ rfl)
      | isFalse h, _ => isFalse (by simp [h])
      | _, isFalse h => isFalse (by simp [h])
    else isFalse (by simp [hk])
  | [], _ :: _ | _ :: _, [] => isFalse (by simp)

end

instance : DecidableEq Json := decEq

/-! ## 2. Building -/

/-- The object of a list of fields; of two fields with one key the later counts. -/
def object (fields : List (Bytes × Json)) : Json :=
  .obj (Table.ofList fields)

/-- The object of a list of fields and of those further fields that have a value. -/
def objectWith (fields : List (Bytes × Json)) (further : List (Bytes × Option Json)) : Json :=
  object (fields ++ further.filterMap fun e => e.2.map (e.1, ·))

/-- An array of strings. -/
def strings (texts : List Bytes) : Json :=
  .arr (texts.map .str)

/-- The object with one field set; a value that is no object stays. -/
def set (j : Json) (key : Bytes) (value : Json) : Json :=
  match j with
  | .obj fields => .obj (Table.insert fields key value)
  | other => other

/-! ## 3. Kinds -/

def isObject : Json → Bool
  | .obj _ => true
  | _ => false

def isNull : Json → Bool
  | .null => true
  | _ => false

def isNumber : Json → Bool
  | .int _ | .double _ => true
  | _ => false

/-- The elements of an array; `none` for any other value. -/
def array? : Json → Option (List Json)
  | .arr items => some items
  | _ => none

/-- The bytes of a string; `none` for any other value. -/
def string? : Json → Option Bytes
  | .str s => some s
  | _ => none

/-- The value itself when it is an object. -/
def object? (j : Json) : Option Json :=
  if j.isObject then some j else none

/-- What a walk over the value meets: the elements of an array, the values of an object in key
    order, nothing of null, and any other value itself. -/
def walk : Json → List Json
  | .arr items => items
  | .obj fields => fields.map (·.2)
  | .null => []
  | other => [other]

/-! ## 4. Fields -/

/-- The field under a key; `none` when it is missing or the value is no object. -/
def field? (j : Json) (key : Bytes) : Option Json :=
  match j with
  | .obj fields => Table.find? fields key
  | _ => none

/-- The string under a key, or the fallback. -/
def stringFieldD (j : Json) (key fallback : Bytes) : Bytes :=
  match j.field? key with
  | some (.str s) => s
  | _ => fallback

/-- The string under a key, or the empty string. -/
def stringField (j : Json) (key : Bytes) : Bytes :=
  j.stringFieldD key []

/-- The truth value under a key, or the fallback. -/
def boolFieldD (j : Json) (key : Bytes) (fallback : Bool) : Bool :=
  match j.field? key with
  | some (.bool b) => b
  | _ => fallback

/-- The truth value under a key, or false. -/
def boolField (j : Json) (key : Bytes) : Bool :=
  j.boolFieldD key false

/-- The number of a value as a 64-bit signed word: integers wrap, doubles lose their fraction. -/
def int? : Json → Option Int
  | .int n => some (Word.toInt64 n)
  | .double x => some x.toInt64
  | _ => none

/-- The number under a key as a 64-bit signed word. -/
def intField? (j : Json) (key : Bytes) : Option Int :=
  (j.field? key).bind int?

/-- The object under a key. -/
def objectField? (j : Json) (key : Bytes) : Option Json :=
  (j.field? key).bind object?

/-- The elements of the array under a key. -/
def arrayField? (j : Json) (key : Bytes) : Option (List Json) :=
  (j.field? key).bind array?

/-- The first element of the array under a key, when it is an object. -/
def headField? (j : Json) (key : Bytes) : Option Json :=
  match j.arrayField? key with
  | some (head :: _) => head.object?
  | _ => none

/-- The field under a key of an object, or the fallback; fails on every other value. -/
def valueD (j : Json) (key : Bytes) (fallback : Json) : Except RelayError Json :=
  match j with
  | .obj fields => .ok ((Table.find? fields key).getD fallback)
  | _ => .error .wrongJsonType

@[simp] theorem valueD_obj (fields : List (Bytes × Json)) (key : Bytes) (fallback : Json) :
    (Json.obj fields).valueD key fallback = .ok ((Table.find? fields key).getD fallback) := rfl

end Json

end ChatRelay
