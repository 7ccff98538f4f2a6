import FieldQuery.Json.Basic

/-!
# JSON as it is written

A text can be well-formed without all of it having a value: a number may lie beyond all bounds,
and an escape may write half of a pair. Who passes over a part of a text does not need its value.

* `Written` — what a well-formed text writes, nested as deep as it likes;
* `Written.value?` — the JSON value, if every part has one and containers nest no deeper than
  they may.
-/

namespace FieldQuery.Json

/-- A well-formed text, token by token. -/
inductive Written where
  | null
  | bool (b : Bool)
  | int (n : Int)
  /-- A number that is not whole; one beyond all bounds is infinite. -/
  | float (x : Binary64)
  /-- A quoted text, or nothing where an escape writes half of a pair. -/
  | text (s : Option String)
  | array (items : List Written)
  | object (fields : List (Option String × Written))
  deriving Inhabited

namespace Written

mutual

/-- The value, when containers may nest `room` deep. -/
def value? : Nat → Written → Option Json
  | _, .null => some .null
  | _, .bool b => some (.bool b)
  | _, .int n => some (.int n)
  | _, .float x => if x.isFinite then some (.float x) else none
  | _, .text s => s.map .text
  | 0, .array _ => none
  | room + 1, .array items => (values? room items).map .array
  | 0, .object _ => none
  | room + 1, .object fields => (fieldValues? room fields).map .object

/-- The value of every item. -/
def values? : Nat → List Written → Option (List Json)
  | _, [] => some []
  | room, w :: ws =>
    match value? room w, values? room ws with
    | some j, some js => some (j :: js)
    | _, _ => none

/-- The key and the value of every field. -/
def fieldValues? : Nat → List (Option String × Written) → Option (List (String × Json))
  | _, [] => some []
  | room, (k, w) :: rest =>
    match k, value? room w, fieldValues? room rest with
    | some k, some j, some fs => some ((k, j) :: fs)
    | _, _, _ => none

end

end Written

end FieldQuery.Json
