import FieldQuery.Data.Sorting
import FieldQuery.Error
import FieldQuery.Query.BaseQuery

/-!
# Stores of entities

* `Backend` — what a listing needs of a store with states of type `τ`: a bound on its rows, the
  number of matching rows, a window of them in some order, and rows by their ids;
* `Store` — tables in memory, rows in the order of their insertion;
* `Store.matching` — the rows that satisfy a query's predicates;
* `compareKeys` — the order of sort keys: what is null, no number or not loaded comes last in
  either direction.
-/

namespace FieldQuery

/-- A store with states of type `τ`. -/
structure Backend (τ : Type) where
  /-- A number that the matching rows do not exceed. -/
  bound (q : BaseQuery) (s : τ) : Nat
  /-- The number of matching rows. -/
  count (q : BaseQuery) (s : τ) : Except StoreError Nat
  /-- Matching rows in an order, some skipped and a limited number taken. -/
  fetch (q : BaseQuery) (order : Option Order) (offset limit : Nat) (s : τ) :
    Except StoreError (List Entity) × τ
  /-- Matching rows with the given ids, in the order of the ids. -/
  fetchByIds (q : BaseQuery) (ids : List EntityId) (s : τ) : Except StoreError (List Entity) × τ

/-- The value of a sort key, unless it belongs to the end. -/
def sortKey? (v : Option Value) : Option Value := v.filter fun v => !v.sortsLast

/-- The order of sort keys. -/
def compareKeys (direction : Direction) (a b : Option Value) : Ordering :=
  match sortKey? a, sortKey? b with
  | none, none => .eq
  | none, some _ => .gt
  | some _, none => .lt
  | some v, some w =>
    match direction with
    | .ascending => v.sortCompare w
    | .descending => w.sortCompare v

/-- Tables in memory. -/
structure Store where
  tables : KeyMap (List Entity) := []
  /-- How often rows have been asked for. -/
  fetches : Nat := 0
  deriving Inhabited

namespace Store

/-- The rows of a type, if there is a table of it. -/
def table? (entityType : String) (s : Store) : Option (List Entity) :=
  KeyMap.get? entityType s.tables

/-- Adds a row to the table of its type. -/
def insert (e : Entity) (s : Store) : Store :=
  let rows := (s.table? e.entityType).getD []
  { s with tables := KeyMap.insert e.entityType (rows ++ [e]) s.tables }

/-- Adds rows one after the other. -/
def extend (es : List Entity) (s : Store) : Store := es.foldl (fun s e => s.insert e) s

/-- Reads the records of one table. -/
def readTable (entityType : String) : Json → Except StoreError (List Entity)
  | .array records =>
    (records.mapM (Entity.ofJson entityType)).mapError fun fault => .query fault.message
  | _ => .error (.query s!"dataset entry '{entityType}' must be an array")

/-- Reads the tables of a dataset; a table without records is not there. -/
def ofJson : Json → Except StoreError Store
  | .object tables =>
    tables.foldlM (fun s (entityType, records) =>
      (readTable entityType records).map fun es => s.extend es) {}
  | _ => .error (.query "dataset must be a JSON object")

/-- The rows that satisfy a query's predicates. -/
def matching (q : BaseQuery) (s : Store) : Except StoreError (List Entity) :=
  match s.table? q.entityType with
  | some rows => .ok (rows.filter fun row => q.predicates.all fun p => p.accepts row)
  | none => .error (.unknownEntityType q.entityType)

/-- The relations that a query loads: those it loads eagerly with all columns, those of its
projection with the columns named there. -/
def relations (q : BaseQuery) : KeyMap Columns :=
  q.projection.relations.foldl (fun m (name, columns) =>
      KeyMap.insert name (if KeyMap.get? name m = some none then none else columns) m)
    (q.eagerLoad.map fun name => (name, none))

/-- A row as a query loads it. -/
def project (q : BaseQuery) (row : Entity) : Entity :=
  row.project q.projection.columns (relations q)

/-- The order of rows by a column. -/
def compareRows (order : Order) (a b : Entity) : Ordering :=
  compareKeys order.direction (a.attribute? order.column) (b.attribute? order.column)

/-- Rows in an order; without one they stay as they are. -/
def arrange (order : Option Order) (rows : List Entity) : List Entity :=
  match order with
  | some order => sortBy (compareRows order) rows
  | none => rows

/-- A window of the matching rows. -/
def window (q : BaseQuery) (order : Option Order) (offset limit : Nat) (s : Store) :
    Except StoreError (List Entity) :=
  (s.matching q).map fun rows =>
    (((arrange order rows).drop offset).take limit).map (project q)

/-- The last of the rows with an id. -/
def rowOf? (id : EntityId) (rows : List Entity) : Option Entity :=
  rows.reverse.find? fun row => row.id == id

/-- The matching rows with the given ids. -/
def withIds (q : BaseQuery) (ids : List EntityId) (s : Store) : Except StoreError (List Entity) :=
  (s.matching q).map fun rows => (ids.filterMap fun id => rowOf? id rows).map (project q)

/-- The operations of the store. -/
def backend : Backend Store where
  bound q s := ((s.table? q.entityType).getD []).length
  count q s := (s.matching q).map List.length
  fetch q order offset limit s :=
    (s.window q order offset limit, { s with fetches := s.fetches + 1 })
  fetchByIds q ids s := (s.withIds q ids, { s with fetches := s.fetches + 1 })

end Store

end FieldQuery
