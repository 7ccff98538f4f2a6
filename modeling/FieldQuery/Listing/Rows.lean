import FieldQuery.Engine.Batch
import FieldQuery.Request.Selection
import FieldQuery.Request.Translation
import FieldQuery.Store.Basic

/-!
# Rows of a listing

* `Row` — an entity with the virtual fields that have been computed for it so far;
* `Engine.fill` — computes a field for the rows that lack it. Rows for which it is excluded are
  dropped while the result is being found, and keep their place once it is settled;
* `Engine.narrow` — keeps the rows that satisfy clauses on virtual fields, one clause after the
  other;
* `sortRows` — sorts by a computed field;
* `Row.render` — a row as the client sees it.
-/

namespace FieldQuery

/-- An entity with what has been computed for it. -/
structure Row where
  entity : Entity
  computed : KeyMap Value := []

/-- What becomes of rows for which a field is excluded. -/
inductive Excluded where
  | drop
  | useDefault
  deriving DecidableEq, Repr

namespace Row

/-- Whether a field has been computed. -/
def has (field : String) (r : Row) : Bool := KeyMap.contains field r.computed

/-- The computed value of a field. -/
def value? (field : String) (r : Row) : Option Value := KeyMap.get? field r.computed

/-- The row with a computed value. -/
def give (field : String) (v : Value) (r : Row) : Row :=
  { r with computed := KeyMap.insert field v r.computed }

/-- Whether the computed value of a clause's field satisfies it. -/
def satisfies (c : Clause) (r : Row) : Bool := c.operator.holds (r.value? c.field) c.operand

/-- The row with the outcome of a field, unless it is dropped. -/
def settle (field : String) (excluded : Excluded) (default : Value) (o : BatchOutcome) (r : Row) :
    Option Row :=
  if r.has field then some r
  else match o.value? r.entity.id, excluded with
    | some v, _ => some (r.give field v)
    | none, .useDefault => some (r.give field default)
    | none, .drop => none

/-- The fields of a row as the client sees them: identity and attributes, or what is selected of
columns, relations and virtual fields. -/
def fields (selection : Option Selection) (r : Row) : KeyMap Json :=
  match selection with
  | none => (r.entity.project none []).toFields
  | some s =>
    s.virtualFields.foldl (fun m field =>
        match r.value? field with
        | some v => KeyMap.insert field v.toJson m
        | none => m)
      (r.entity.project (some s.columns) s.relations).toFields

/-- The row as the client sees it. -/
def render (selection : Option Selection) (r : Row) : Json := .object (r.fields selection)

end Row

/-- Sorts rows by a computed field. -/
def sortRows (field : String) (direction : Direction) (rows : List Row) : List Row :=
  sortBy (fun a b => compareKeys direction (a.value? field) (b.value? field)) rows

/-- The rows of a page. -/
def pageOf (o : Options) (rows : List Row) : List Row := (rows.drop o.offset).take o.perPage

namespace Engine

variable {σ : Type}

/-- The default value of a virtual field. -/
def defaultOf (en : Engine σ) (field : String) : Value :=
  match en.catalog.virtual? field with
  | some v => v.default
  | none => .null

/-- Computes a field for the rows that lack it. -/
def fill (en : Engine σ) (heeds : Bool) (excluded : Excluded) (field : String) (rows : List Row)
    (s : EngineState σ) : Except ComputationError (List Row) × EngineState σ :=
  match (rows.filter fun r => !r.has field).map (·.entity) with
  | [] => (.ok rows, s)
  | pending =>
    match en.computeBatch heeds field pending s with
    | (.error e, s) => (.error e, s)
    | (.ok outcome, s) =>
      (.ok (rows.filterMap (Row.settle field excluded (en.defaultOf field) outcome)), s)

/-- Computes several fields. -/
def fillAll (en : Engine σ) (heeds : Bool) (excluded : Excluded) :
    List String → List Row → EngineState σ → Except ComputationError (List Row) × EngineState σ
  | [], rows, s => (.ok rows, s)
  | field :: fields, rows, s =>
    match en.fill heeds excluded field rows s with
    | (.error e, s) => (.error e, s)
    | (.ok rows, s) => fillAll en heeds excluded fields rows s

/-- Keeps the rows that satisfy every clause. -/
def narrow (en : Engine σ) (heeds : Bool) :
    List Clause → List Row → EngineState σ → Except ComputationError (List Row) × EngineState σ
  | [], rows, s => (.ok rows, s)
  | c :: cs, rows, s =>
    match en.fill heeds .drop c.field rows s with
    | (.error e, s) => (.error e, s)
    | (.ok rows, s) => narrow en heeds cs (rows.filter (Row.satisfies c)) s

end Engine

end FieldQuery
