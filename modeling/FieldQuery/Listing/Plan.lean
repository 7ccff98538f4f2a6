import FieldQuery.Error
import FieldQuery.Listing.Response
import FieldQuery.Query.BaseQuery
import FieldQuery.Request.Selection
import FieldQuery.Request.Translation

/-!
# Plans of listings

What a request comes down to before the store is asked.

* `SortKey` — the column or the virtual field to sort by;
* `ListingPlan` — clauses, options, selection, sort key, the query to the store, and warnings;
* `Catalog.planRequest` — the plan of a request. In strict settings the first kind of wrong
  option fails the request, otherwise wrong options are left out with a warning.
-/

namespace FieldQuery

/-- What to sort by. -/
inductive SortKey where
  | column (name : String)
  | virtual (name : String)
  deriving DecidableEq, Repr

/-- The name of the field to sort by. -/
def SortKey.name : SortKey → String
  | .column name => name
  | .virtual name => name

/-- What a request comes down to. -/
structure ListingPlan where
  translation : Translation
  options : Options
  selection : Option Selection
  sort : Option SortKey
  query : BaseQuery
  warnings : List Violation

/-- What becomes of wrong options: in strict settings they fail the request, otherwise they are
warnings. -/
def FilterSettings.tolerate (s : FilterSettings) (errors : List FilterError) :
    Except FilterError (List Violation) :=
  if s.strict then
    match errors with
    | [] => .ok []
    | [e] => .error e
    | es => .error (.rejected (es.map FilterError.violation))
  else .ok (errors.map FilterError.violation)

namespace Catalog

/-- The selection of a request, if it has one, and what is wrong with it. -/
def selectionOf (c : Catalog) (o : Options) : Option Selection × List FilterError :=
  match o.fields with
  | none => (none, [])
  | some names =>
    let (s, unknown) := Selection.ofNames c names
    (some s, unknown)

/-- The sort key of a request, if it has one, and what is wrong with it. -/
def sortKeyOf (c : Catalog) (o : Options) : Option SortKey × List FilterError :=
  match o.sortBy with
  | none => (none, [])
  | some requested =>
    let name := c.resolve requested
    match c.get? name with
    | some d =>
      if d.isSortable then (some (if d.isVirtual then .virtual name else .column name), [])
      else (none, [.sortNotAllowed requested])
    | none => (none, [.sortNotAllowed requested])

/-- What has to be loaded for the clauses and the sort key of a request. -/
def loadPlan (c : Catalog) (t : Translation) (sort : Option SortKey) : LoadPlan :=
  match sort with
  | some (.virtual name) => t.eager.merge (c.plan name)
  | some (.column name) => { t.eager with columns := Names.insert name t.eager.columns }
  | none => t.eager

/-- The columns and relations to load: without a selection every column, with one what it needs
and what clauses and sort key need. -/
def projectionOf (c : Catalog) (selection : Option Selection) (needed : LoadPlan) : Projection :=
  match selection with
  | none => {}
  | some s =>
    let p := s.projection c
    { p with columns := p.columns.map fun names => names.union needed.columns }

/-- The query to the store. -/
def queryOf (c : Catalog) (entityType : String) (t : Translation) (selection : Option Selection)
    (sort : Option SortKey) : BaseQuery :=
  let needed := c.loadPlan t sort
  { entityType := entityType
    predicates := t.predicates
    eagerLoad := needed.relations
    projection := c.projectionOf selection needed }

/-- The plan of a request. Filters are looked at first, then the selection, then the sort key. -/
def planRequest (c : Catalog) (s : Settings) (entityType : String) (p : Params) :
    Except FilterError ListingPlan :=
  match s.filter.translate c p with
  | .error e => .error e
  | .ok t =>
    let options := Options.ofParams p s.pagination
    let (selection, unknown) := c.selectionOf options
    match s.filter.tolerate unknown with
    | .error e => .error e
    | .ok selectionWarnings =>
      let (sort, refused) := c.sortKeyOf options
      match s.filter.tolerate refused with
      | .error e => .error e
      | .ok sortWarnings =>
        .ok {
          translation := t, options := options, selection := selection, sort := sort,
          query := c.queryOf entityType t selection sort,
          warnings := t.rejected.map FilterError.violation ++ selectionWarnings ++ sortWarnings }

end Catalog

end FieldQuery
