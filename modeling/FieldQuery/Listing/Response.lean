import FieldQuery.Listing.Paginator
import FieldQuery.Request.Error

/-!
# Responses

* `SortStrategy` — how the rows of a response came into their order;
* `Response` — rows, and what the client learns about filters, warnings, pages and sorting.
-/

namespace FieldQuery

/-- How rows came into their order. -/
inductive SortStrategy where
  /-- As they are in the store. -/
  | none
  /-- Sorted by the store. -/
  | database
  /-- Sorted by computed values. -/
  | memory
  /-- As they are in the store, because sorting was not feasible. -/
  | fallback
  deriving DecidableEq, Repr

/-- The name of a strategy. -/
def SortStrategy.name : SortStrategy → String
  | .none => "none"
  | .database => "database"
  | .memory => "memory"
  | .fallback => "fallback"

/-- What the client learns about sorting. -/
structure SortMeta where
  sortBy : Option String
  direction : Direction
  strategy : SortStrategy
  deriving DecidableEq, Repr

/-- A response. -/
structure Response where
  data : List Json
  filters : List Json
  /-- What was left out of the request. -/
  warnings : List Violation
  pagination : Paginator
  sort : SortMeta
  deriving Repr

namespace Response

/-- The identities of the rows. -/
def ids (r : Response) : List Json := r.data.filterMap fun row => row.field? "id"

/-- A column of the rows, null where a row lacks it. -/
def column (r : Response) (name : String) : List Json :=
  r.data.map fun row => (row.field? name).getD .null

/-- The sorting as JSON. -/
def sortJson (s : SortMeta) : Json :=
  .object [("sort_by", .ofOption .text s.sortBy), ("sort_direction", .text s.direction.name),
    ("strategy", .text s.strategy.name)]

/-- The response as JSON. -/
def toJson (r : Response) : Json :=
  .object [
    ("data", .array r.data),
    ("meta", .object [
      ("filters", .array r.filters),
      ("warnings", .array (r.warnings.map Violation.toJson)),
      ("pagination", r.pagination.toJson),
      ("sort", sortJson r.sort)])]

end Response

end FieldQuery
