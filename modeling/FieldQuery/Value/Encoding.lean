import FieldQuery.Value.Basic

/-!
# Values in JSON

Two encodings of values, each with its reader.

* `toJson`, `ofJson?` — the natural form of responses and datasets: an instant becomes a text, a
  number that is not finite becomes null, an object is no value;
* `tagged`, `ofWritten?` — the form of caches and fingerprints, an object with the kind under
  `type` and the content under `value`; the kind survives.

A tagged text is read in one pass. Fields other than the two are passed over and need not have a
value. Content that stands behind its kind is read as the kind asks for; content that stands
before it is taken as a JSON value first, and `ofTagged?` reads that.
-/

namespace FieldQuery

namespace Value

mutual

/-- The natural form. -/
def toJson : Value → Json
  | .null => .null
  | .bool b => .bool b
  | .int n => .int n.toInt
  | .decimal x => .ofBinary64 x
  | .text s => .text s
  | .instant t => .text t.text
  | .list items => .array (toJsons items)

/-- The natural form of every item. -/
def toJsons : List Value → List Json
  | [] => []
  | v :: vs => toJson v :: toJsons vs

end

mutual

/-- Reads the natural form. A whole number beyond 64 bits is read as a decimal. -/
def ofJson? : Json → Option Value
  | .null => some .null
  | .bool b => some (.bool b)
  | .int n => match int64? n with
    | some i => some (.int i)
    | none => some (.decimal (.ofInt n))
  | .float x => some (.decimal x)
  | .text s => some (.text s)
  | .array items => (ofJsons? items).map .list
  | .object _ => none

/-- Reads every item. -/
def ofJsons? : List Json → Option (List Value)
  | [] => some []
  | j :: js =>
    match ofJson? j, ofJsons? js with
    | some v, some vs => some (v :: vs)
    | _, _ => none

end

/-- The kind of a value. -/
inductive Kind where
  | null
  | bool
  | int
  | decimal
  | text
  | instant
  | list
  deriving DecidableEq, Repr

namespace Kind

/-- All kinds, in the order in which they are counted. -/
def all : List Kind := [.null, .bool, .int, .decimal, .text, .instant, .list]

/-- The name of a kind. -/
def name : Kind → String
  | .null => "null"
  | .bool => "bool"
  | .int => "int"
  | .decimal => "decimal"
  | .text => "str"
  | .instant => "date_time"
  | .list => "list"

/-- The kind of a name. -/
def ofName? (s : String) : Option Kind := all.find? fun k => k.name = s

theorem ofName?_name_self (k : Kind) : ofName? k.name = some k := by
  cases k <;> rfl

end Kind

/-- The two fields of the tagged form. -/
def tag (kind : Kind) (content : Json) : Json :=
  .object [("type", .text kind.name), ("value", content)]

mutual

/-- The tagged form. -/
def tagged : Value → Json
  | .null => .object [("type", .text Kind.null.name)]
  | .bool b => tag .bool (.bool b)
  | .int n => tag .int (.int n.toInt)
  | .decimal x => tag .decimal (.ofBinary64 x)
  | .text s => tag .text (.text s)
  | .instant t => tag .instant (.text (String.ofList t.printZulu))
  | .list items => tag .list (.array (taggeds items))

/-- The tagged form of every item. -/
def taggeds : List Value → List Json
  | [] => []
  | v :: vs => tagged v :: taggeds vs

end

/-- Content of a kind without items of its own. -/
def ofScalar? : Kind → Json → Option Value
  | .null, .null => some .null
  | .bool, .bool b => some (.bool b)
  | .int, .int n => (int64? n).map .int
  | .decimal, .int n => some (.decimal (.ofInt n))
  | .decimal, .float x => some (.decimal x)
  | .text, .text s => some (.text s)
  | .instant, .text s => (Time.readRelaxed? s.toList).map .instant
  | _, _ => none

/-- Whether a field of the tagged form is read at all. -/
def isRelevant (key : String) : Bool := key == "type" || key == "value"

/-- A kind in a JSON value: its name, alone or as the one key of an object without content. -/
def kindOfTag? : Json → Option Kind
  | .text s => Kind.ofName? s
  | .object [(s, .null)] => Kind.ofName? s
  | .object [(s, .object [])] => Kind.ofName? s
  | _ => none

/-- A kind in a JSON array: its name or its number. -/
def kindOfItem? : Json → Option Kind
  | .text s => Kind.ofName? s
  | .int n => if 0 ≤ n then Kind.all[n.toNat]? else none
  | _ => none

/-- Reads the content of a kind; `list` reads the items of a list. -/
def ofContent? (list : List Json → Option (List Value)) : Kind → Json → Option Value
  | .list, .array items => (list items).map .list
  | k, j => ofScalar? k j

/-- Reads the tagged form from a JSON value that nests at most `depth` deep: an object with one
`type` and one `value`, which may be missing if it would be null, or an array of kind and
content. -/
def ofTagged? : Nat → Json → Option Value
  | 0, _ => none
  | depth + 1, .object fields =>
    match fields.filter fun f => isRelevant f.1 with
    | [("type", t)] => if kindOfTag? t = some .null then some .null else none
    | [("type", t), ("value", c)] =>
      (kindOfTag? t).bind fun k => ofContent? (·.mapM (ofTagged? depth)) k c
    | [("value", c), ("type", t)] =>
      (kindOfTag? t).bind fun k => ofContent? (·.mapM (ofTagged? depth)) k c
    | _ => none
  | depth + 1, .array [t, c] =>
    (kindOfItem? t).bind fun k => ofContent? (·.mapM (ofTagged? depth)) k c
  | _ + 1, _ => none

/-- A kind in a text: its name, alone or as the one key of an object with null. -/
def kindOfWritten? (room : Nat) : Json.Written → Option Kind
  | .text (some s) => Kind.ofName? s
  | .object [(some s, .null)] => if 0 < room then Kind.ofName? s else none
  | _ => none

/-- Reads the content of a kind from a text; `list` reads the items of a list. -/
def ofWrittenContent? (list : List Json.Written → Option (List Value)) (room : Nat) :
    Kind → Json.Written → Option Value
  | .list, .array items => (list items).map .list
  | k, w => (w.value? room).bind (ofScalar? k)

/-- The fields of an object that are read, if all its keys are texts. -/
def relevantFields? (fields : List (Option String × Json.Written)) :
    Option (List (String × Json.Written)) :=
  let named : Option (List (String × Json.Written)) := fields.mapM fun f => f.1.map (·, f.2)
  named.map (·.filter fun f => isRelevant f.1)

/-- Reads the tagged form from a text in which containers may nest `room` deep. -/
def ofWritten? : Nat → Json.Written → Option Value
  | 0, _ => none
  | room + 1, w =>
    let list : List Json.Written → Option (List Value) :=
      match room with
      | 0 => fun _ => none
      | room + 1 => (·.mapM (ofWritten? room))
    match w with
    | .object fields =>
      match relevantFields? fields with
      | some [("type", t)] => if kindOfWritten? room t = some .null then some .null else none
      | some [("type", t), ("value", c)] =>
        (kindOfWritten? room t).bind fun k => ofWrittenContent? list room k c
      | some [("value", c), ("type", t)] =>
        (c.value? room).bind fun j => (kindOfWritten? room t).bind fun k =>
          ofContent? (·.mapM (ofTagged? room)) k j
      | _ => none
    | .array [.text (some s), c] =>
      (Kind.ofName? s).bind fun k => ofWrittenContent? list room k c
    | _ => none

/-- The text of the tagged form. -/
def encode (v : Value) : String := v.tagged.compact

/-- Reads the text of the tagged form. -/
def decode? (s : String) : Option Value :=
  (Json.Written.read s).bind (ofWritten? Json.maxDepth)

end Value

end FieldQuery
