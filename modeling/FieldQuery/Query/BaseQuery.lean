import FieldQuery.Digest.Basic
import FieldQuery.Query.Predicate

/-!
# Queries to the store

* `Projection` — the columns and relations to load;
* `BaseQuery` — the entities to load: their type, the predicates they satisfy, the relations and
  columns that come with them;
* `Order` — a column and a direction to sort by;
* `BaseQuery.fingerprint` — a name for the rows of a query in a certain order. What is loaded of
  each row makes no difference to it.
-/

namespace FieldQuery

/-- The columns and relations to load. No columns stands for all. -/
structure Projection where
  columns : Columns := none
  relations : KeyMap Columns := []
  deriving DecidableEq, Repr, Inhabited

/-- A query to the store. -/
structure BaseQuery where
  entityType : String
  predicates : List Predicate := []
  /-- Relations to load with all their columns. -/
  eagerLoad : Names := []
  projection : Projection := {}
  deriving Repr, Inhabited

/-- A column and a direction to sort by. -/
structure Order where
  column : String
  direction : Direction
  deriving DecidableEq, Repr

namespace BaseQuery

/-- What a fingerprint is taken of. -/
def shape (q : BaseQuery) (sortField : String) (direction : Direction) : Json :=
  .object [
    ("entity_type", .text q.entityType),
    ("predicates", .array (Predicate.taggeds q.predicates)),
    ("sort_by", .text sortField),
    ("sort_direction", .text direction.name)]

/-- The name of the query's rows in the order of a field. -/
def fingerprint (digest : Digest) (q : BaseQuery) (sortField : String) (direction : Direction) :
    String :=
  digest (q.shape sortField direction).compact

end BaseQuery

end FieldQuery
