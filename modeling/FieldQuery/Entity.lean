import FieldQuery.Value.Encoding

/-!
# Entities

* `EntityId` — an integer or a text; integers come first in the order of ids;
* `Entity` — a record with the attributes and the related records that have been loaded. An
  attribute that is absent has not been loaded, which is not the same as a null one;
* `Entity.project` — the copy with the given attributes and relations only;
* `Entity.ofJson`, `Entity.toJson` — records in JSON. Objects and arrays that hold an object are
  relations, all else is an attribute; `id` is both the identity and an attribute.
-/

namespace FieldQuery

open Text

/-- The identity of an entity among those of its type. -/
inductive EntityId where
  | int (n : Int64)
  | text (s : String)
  deriving DecidableEq, Repr, Inhabited

namespace EntityId

/-- The id as text. -/
def display : EntityId → String
  | .int n => String.ofList (intNumeral n.toInt)
  | .text s => s

/-- The id in JSON. -/
def toJson : EntityId → Json
  | .int n => .int n.toInt
  | .text s => .text s

/-- Reads an id. -/
def ofJson? : Json → Option EntityId
  | .int n => (int64? n).map .int
  | .text s => some (.text s)
  | _ => none

/-- The id as a value. -/
def toValue : EntityId → Value
  | .int n => .int n
  | .text s => .text s

/-- The order of ids. -/
def compare : EntityId → EntityId → Ordering
  | .int a, .int b => Ord.compare a.toInt b.toInt
  | .int _, .text _ => .lt
  | .text _, .int _ => .gt
  | .text a, .text b => Ord.compare a b

/-- Reads every id of a list. -/
def ofJsons? : List Json → Option (List EntityId)
  | [] => some []
  | j :: js =>
    match ofJson? j, ofJsons? js with
    | some i, some is => some (i :: is)
    | _, _ => none

/-- The text of a list of ids. -/
def encodeList (ids : List EntityId) : String := (Json.array (ids.map toJson)).compact

/-- Reads the text of a list of ids. -/
def decodeList? (s : String) : Option (List EntityId) :=
  match Json.read s with
  | some (.array items) => ofJsons? items
  | _ => none

end EntityId

/-- The columns to keep of a record; none stands for all. -/
abbrev Columns := Option Names

/-- A record. Attributes and relations are in the order of their names. -/
inductive Entity where
  | mk (entityType : String) (id : EntityId) (attributes : List (String × Value))
      (relations : List (String × List Entity))
  deriving Repr

namespace Entity

/-- The type of the record. -/
def entityType : Entity → String
  | .mk t _ _ _ => t

/-- The identity of the record. -/
def id : Entity → EntityId
  | .mk _ i _ _ => i

/-- The attributes that have been loaded. -/
def attributes : Entity → KeyMap Value
  | .mk _ _ as _ => as

/-- The relations that have been loaded. -/
def relations : Entity → KeyMap (List Entity)
  | .mk _ _ _ rs => rs

instance : Inhabited Entity := ⟨.mk "" default [] []⟩

/-- An attribute. -/
def attribute? (e : Entity) (name : String) : Option Value := KeyMap.get? name e.attributes

/-- The records of a relation. -/
def relation? (e : Entity) (name : String) : Option (List Entity) :=
  KeyMap.get? name e.relations

/-- The record with one attribute set. -/
def setAttribute (e : Entity) (name : String) (v : Value) : Entity :=
  .mk e.entityType e.id (KeyMap.insert name v e.attributes) e.relations

/-- The record with one relation set. -/
def setRelation (e : Entity) (name : String) (related : List Entity) : Entity :=
  .mk e.entityType e.id e.attributes (KeyMap.insert name related e.relations)

/-- The attributes among the given columns. -/
def keepColumns (columns : Columns) (attributes : KeyMap Value) : KeyMap Value :=
  match columns with
  | some names => attributes.filter fun a => names.contains a.1
  | none => attributes

/-- The record with the given columns and without relations. -/
def restrict (columns : Columns) (e : Entity) : Entity :=
  .mk e.entityType e.id (keepColumns columns e.attributes) []

/-- The record with the given columns and the given relations, as far as they have been loaded;
related records keep the columns named beside their relation. -/
def project (e : Entity) (columns : Columns) (relations : KeyMap Columns) : Entity :=
  .mk e.entityType e.id (keepColumns columns e.attributes)
    (relations.filterMap fun (name, nested) =>
      (e.relation? name).map fun related => (name, related.map (restrict nested)))

/-- What keeps a JSON value from being a record. -/
inductive RecordFault where
  | notAnObject (entityType : String)
  | badId (entityType : String)
  | missingId (entityType : String)
  | badValue (entityType key : String)
  deriving DecidableEq, Repr

/-- The fault in words. -/
def RecordFault.message : RecordFault → String
  | .notAnObject t => t ++ " record is not a JSON object"
  | .badId t => t ++ " id must be an integer or string"
  | .missingId t => t ++ " record is missing an id"
  | .badValue t k => "unsupported value for " ++ t ++ "." ++ k

/-- The identity in a record's fields. -/
def readId (entityType : String) (fields : List (String × Json)) : Except RecordFault EntityId :=
  match KeyMap.get? "id" fields with
  | some (.int n) =>
    match int64? n with
    | some i => .ok (.int i)
    | none => .error (.badId entityType)
  | some (.float _) => .error (.badId entityType)
  | some (.text s) => .ok (.text s)
  | _ => .error (.missingId entityType)

mutual

/-- Reads a record. -/
def ofJson (entityType : String) : Json → Except RecordFault Entity
  | .object fields =>
    match readId entityType fields with
    | .error f => .error f
    | .ok id => ofFields entityType fields (.mk entityType id [] [])
  | .null => .error (.notAnObject entityType)
  | .bool _ => .error (.notAnObject entityType)
  | .int _ => .error (.notAnObject entityType)
  | .float _ => .error (.notAnObject entityType)
  | .text _ => .error (.notAnObject entityType)
  | .array _ => .error (.notAnObject entityType)

/-- Adds the fields of a record one by one. -/
def ofFields (entityType : String) : List (String × Json) → Entity → Except RecordFault Entity
  | [], e => .ok e
  | (k, .object fields) :: rest, e =>
    match readId k fields with
    | .error f => .error f
    | .ok id =>
      match ofFields k fields (.mk k id [] []) with
      | .error f => .error f
      | .ok r => ofFields entityType rest (e.setRelation k [r])
  | (k, .array items) :: rest, e =>
    if items.any Json.isObject then
      match ofItems k items with
      | .error f => .error f
      | .ok related => ofFields entityType rest (e.setRelation k related)
    else match Value.ofJson? (.array items) with
      | some v => ofFields entityType rest (e.setAttribute k v)
      | none => .error (.badValue entityType k)
  | (k, j) :: rest, e =>
    match Value.ofJson? j with
    | some v => ofFields entityType rest (e.setAttribute k v)
    | none => .error (.badValue entityType k)

/-- Reads the records of a relation. -/
def ofItems (entityType : String) : List Json → Except RecordFault (List Entity)
  | [] => .ok []
  | j :: js =>
    match ofJson entityType j with
    | .error f => .error f
    | .ok e =>
      match ofItems entityType js with
      | .error f => .error f
      | .ok es => .ok (e :: es)

end

/-- Sets a field for every attribute. -/
def attributeFields (attributes : List (String × Value)) (fields : KeyMap Json) : KeyMap Json :=
  attributes.foldl (fun m a => KeyMap.insert a.1 a.2.toJson m) fields

mutual

/-- The fields of the record: `id`, the attributes, then the relations, a later one of equal
names remaining. -/
def toFields : Entity → KeyMap Json
  | .mk _ id attributes relations =>
    relationFields relations (attributeFields attributes [("id", id.toJson)])

/-- Sets a field for every relation. -/
def relationFields : List (String × List Entity) → KeyMap Json → KeyMap Json
  | [], fields => fields
  | (k, related) :: rest, fields =>
    relationFields rest (KeyMap.insert k (.array (toJsons related)) fields)

/-- Every record as an object. -/
def toJsons : List Entity → List Json
  | [] => []
  | e :: es => .object (toFields e) :: toJsons es

end

/-- The record as an object. -/
def toJson (e : Entity) : Json := .object e.toFields

end Entity

end FieldQuery
