import FieldQuery.Request.Clause
import FieldQuery.Request.Params

/-!
# Translations

* `Translation` — the clauses of a request: those of columns go to the store, those of virtual
  fields are evaluated on computed values;
* `FilterSettings.translate` — the translation of parameters. Clauses that cannot be read are
  dropped, or fail the request in strict settings; a required filter that is missing always
  fails it.
-/

namespace FieldQuery

open Text

/-- The filters of a request. -/
structure Translation where
  /-- The accepted clauses in the order of the request. -/
  active : List Clause := []
  /-- What was wrong with the clauses that were dropped. -/
  rejected : List FilterError := []
  /-- The search, over the searchable columns. -/
  search : Option Predicate := none
  /-- What has to be loaded for the clauses of virtual fields. -/
  eager : LoadPlan := {}
  deriving Repr, Inhabited

namespace Translation

/-- The clauses of virtual fields. -/
def virtualClauses (t : Translation) : List Clause := t.active.filter (·.isVirtual)

/-- The conditions for the store: the clauses of columns, then the search. -/
def predicates (t : Translation) : List Predicate :=
  (t.active.filter (!·.isVirtual)).map Clause.predicate ++ t.search.toList

/-- The conditions on virtual fields. -/
def virtualPredicates (t : Translation) : List Predicate :=
  t.virtualClauses.map Clause.predicate

/-- Whether there are conditions on virtual fields. -/
def hasVirtualFilters (t : Translation) : Bool := !t.virtualClauses.isEmpty

end Translation

namespace FilterSettings

/-- The pattern of a search term: anything that holds it. -/
def searchPattern (term : String) : String :=
  let core := (term.toList.dropWhile (· == wildcard)).reverse.dropWhile (· == wildcard)
  String.ofList (wildcard :: core.reverse ++ [wildcard])

/-- The condition of a search: some searchable column fits. -/
def searchPredicate (s : FilterSettings) (c : Catalog) (term : String) : Option Predicate :=
  match c.searchable.filter fun name => !s.isBlocked name with
  | [] => none
  | names =>
    let operand := Operand.single (.text (searchPattern term))
    some (.anyOf (names.map fun name => .compare name .like operand))

/-- The required columns on which no clause filters. -/
def missing (c : Catalog) (active : List Clause) : List FilterError :=
  (c.required.filter fun name => !(active.map (·.field)).contains name).map .missingRequired

/-- The filters of a request, before anything fails the request. -/
def collect (s : FilterSettings) (c : Catalog) (p : Params) : Translation :=
  let outcomes := p.filters.map fun (key, raw) => s.clause c key raw
  let active := outcomes.filterMap fun
    | .ok clause => some clause
    | .error _ => none
  let rejected := outcomes.filterMap fun
    | .ok _ => none
    | .error e => some e
  { active := active
    rejected := rejected
    search := ((p.get? "search").bind Options.visible?).bind (s.searchPredicate c)
    eager := (active.filter (·.isVirtual)).foldl (fun plan cl => plan.merge (c.plan cl.field)) {} }

/-- The translation of a request. -/
def translate (s : FilterSettings) (c : Catalog) (p : Params) : Except FilterError Translation :=
  let t := s.collect c p
  let missing := missing c t.active
  if s.strict ∧ t.rejected ≠ [] then
    .error (.rejected ((t.rejected ++ missing).map FilterError.violation))
  else match missing with
    | [] => .ok t
    | [e] => .error e
    | es => .error (.rejected (es.map FilterError.violation))

end FilterSettings

end FieldQuery
