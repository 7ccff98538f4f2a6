import FieldQuery.Listing.Plan
import FieldQuery.Listing.Rows

/-!
# Listings

A listing answers requests for pages of entities from a store, with the help of an engine and of a
cache for orders.

* `databasePage` — a page that the store cuts out, in its own order or sorted by a column;
* `filteredPage` — clauses on virtual fields need all rows of the query in memory;
* `virtualSortedPage` — so does sorting by a virtual field, unless its order is cached;
* `Listing.execute` — the response to a request.

When a sort by a virtual field is not feasible, rows stay in the store's order, if the settings
allow it; a cancelled request and a failure under the `throw` policy are errors always. A cached
order holds identities only: predicates are applied again when its rows are loaded.
-/

namespace FieldQuery

/-- What answers requests: an engine, a store, maybe a cache for orders, and settings. -/
structure Listing (σ τ : Type) where
  engine : Engine σ
  backend : Backend τ
  sortCache : Option (Cache σ) := none
  settings : Settings := {}

/-- An engine with the cache that the settings allow. -/
def Engine.ofSettings {σ : Type} (c : Catalog) (s : Settings) (digest : Digest)
    (cache : Option (Cache σ)) : Engine σ where
  catalog := c
  settings := s.computation
  digest := digest
  cache := if s.cache.enabled then cache else none
  defaultTtlMs := 1000 * s.cache.defaultTtlSecs

/-- A listing with the caches that the settings allow. -/
def Listing.ofSettings {σ τ : Type} (c : Catalog) (s : Settings) (digest : Digest)
    (cache : Option (Cache σ)) (backend : Backend τ) : Listing σ τ where
  engine := Engine.ofSettings c s digest cache
  backend := backend
  sortCache := if s.sort.cacheSortedIds then cache else none
  settings := s

/-- What changes between requests. -/
structure ListingState (σ τ : Type) where
  engine : EngineState σ
  store : τ

/-- The rows of a page, and how many rows there are on all pages. -/
structure Page where
  total : Nat
  rows : List Row
  strategy : SortStrategy

namespace Listing

variable {σ τ : Type}

/-- A step that may fail and changes the state in either case. -/
abbrev Step (σ τ α : Type) := ListingState σ τ → Except Error α × ListingState σ τ

/-- The number of matching rows. -/
def count (l : Listing σ τ) (q : BaseQuery) (s : ListingState σ τ) : Except Error Nat :=
  (l.backend.count q s.store).mapError .store

/-- A page that the store cuts out. -/
def databasePage (l : Listing σ τ) (q : BaseQuery) (order : Option Order) (o : Options)
    (strategy : SortStrategy) : Step σ τ Page := fun s =>
  match l.count q s with
  | .error e => (.error e, s)
  | .ok total =>
    match l.backend.fetch q order o.offset o.perPage s.store with
    | (.error e, store) => (.error (.store e), { s with store := store })
    | (.ok es, store) => (.ok ⟨total, es.map fun e => { entity := e }, strategy⟩,
        { s with store := store })

/-- Loads matching rows window by window, up to the first one that is not full. As many windows
as `fuel` are loaded at most. -/
def fetchWindows (b : Backend τ) (q : BaseQuery) (order : Option Order) (size : Nat) :
    Nat → List Entity → τ → Except StoreError (List Entity) × τ
  | 0, es, t => (.ok es, t)
  | fuel + 1, es, t =>
    match b.fetch q order es.length size t with
    | (.error e, t) => (.error e, t)
    | (.ok batch, t) =>
      if batch.length < size then (.ok (es ++ batch), t)
      else fetchWindows b q order size fuel (es ++ batch) t

/-- Loads all matching rows. -/
def fetchAll (l : Listing σ τ) (q : BaseQuery) (order : Option Order) : Step σ τ (List Row) :=
  fun s =>
  let size := max 1 l.settings.computation.batchSize
  let windows := l.backend.bound q s.store / size + 1
  match fetchWindows l.backend q order size windows [] s.store with
  | (.error e, store) => (.error (.store e), { s with store := store })
  | (.ok es, store) => (.ok (es.map fun e => { entity := e }), { s with store := store })

/-- A step of the engine. -/
def onEngine {α : Type} (f : EngineState σ → Except ComputationError α × EngineState σ) :
    Step σ τ α := fun s =>
  let (found, engine) := f s.engine
  (found.mapError .computation, { s with engine := engine })

/-- Whether a failed sort leaves rows in the store's order. -/
def fallsBack (l : Listing σ τ) (e : Error) : Bool :=
  l.settings.sort.fallbackEnabled &&
    match e with
    | .computation (.timeoutExceeded ..) => true
    | .computation (.memoryLimitExceeded ..) => true
    | .computation (.batchFailed ..) => true
    | .store _ => true
    | .cache _ => true
    | _ => false

/-- Sorts filtered rows by a virtual field. -/
def sortFiltered (l : Listing σ τ) (heeds : Bool) (field : String) (direction : Direction)
    (rows : List Row) : Step σ τ (List Row × SortStrategy) := fun s =>
  match onEngine (l.engine.fill heeds .drop field rows) s with
  | (.ok rows, s) => (.ok (sortRows field direction rows, .memory), s)
  | (.error e, s) => if l.fallsBack e then (.ok (rows, .fallback), s) else (.error e, s)

/-- Brings filtered rows into the order of the sort key; the store has already sorted by a
column. -/
def arrangeFiltered (l : Listing σ τ) (heeds : Bool) (sort : Option SortKey)
    (direction : Direction) (rows : List Row) : Step σ τ (List Row × SortStrategy) := fun s =>
  match sort with
  | none => (.ok (rows, .none), s)
  | some (.column _) => (.ok (rows, .database), s)
  | some (.virtual field) => l.sortFiltered heeds field direction rows s

/-- The order in which the store sorts. -/
def storeOrder (sort : Option SortKey) (direction : Direction) : Option Order :=
  match sort with
  | some (.column name) => some ⟨name, direction⟩
  | _ => none

/-- A page of the rows that satisfy clauses on virtual fields. -/
def filteredPage (l : Listing σ τ) (heeds : Bool) (plan : ListingPlan) : Step σ τ Page := fun s =>
  let max := l.settings.sort.maxSortRecords
  let direction := plan.options.direction
  match l.count plan.query s with
  | .error e => (.error e, s)
  | .ok count =>
    if max < count then (.error (.filter (.tooManyRecords count max)), s)
    else match l.fetchAll plan.query (storeOrder plan.sort direction) s with
      | (.error e, s) => (.error e, s)
      | (.ok rows, s) =>
        match onEngine (l.engine.narrow heeds plan.translation.virtualClauses rows) s with
        | (.error e, s) => (.error e, s)
        | (.ok rows, s) =>
          match l.arrangeFiltered heeds plan.sort direction rows s with
          | (.error e, s) => (.error e, s)
          | (.ok (rows, strategy), s) =>
            (.ok ⟨rows.length, pageOf plan.options rows, strategy⟩, s)

/-- The key of a cached order. -/
def orderKey (l : Listing σ τ) (q : BaseQuery) (field : String) (direction : Direction) : String :=
  "sort:" ++ q.fingerprint l.engine.digest field direction

/-- The identities in a cached order; a failing cache has none. -/
def cachedOrder (l : Listing σ τ) (key : String) (s : ListingState σ τ) :
    Option (List EntityId) × ListingState σ τ :=
  match l.sortCache with
  | none => (none, s)
  | some cache =>
    let now := s.engine.clock + 1
    let (found, state) := cache.fetch EntityId.decodeList? now key s.engine.cache
    let s := { s with engine := { s.engine with cache := state, clock := now } }
    match found with
    | .ok ids => (ids, s)
    | .error _ => (none, s)

/-- Caches an order; a failing cache does not matter. -/
def cacheOrder (l : Listing σ τ) (key : String) (ids : List EntityId) (s : ListingState σ τ) :
    ListingState σ τ :=
  match l.sortCache with
  | none => s
  | some cache =>
    let now := s.engine.clock + 1
    let lifetime := l.settings.sort.sortCacheTtlSecs * nanosPerSecond
    let (_, state) := cache.put now key (EntityId.encodeList ids) lifetime s.engine.cache
    { s with engine := { s.engine with cache := state, clock := now } }

/-- A page of a cached order. -/
def cachedPage (l : Listing σ τ) (q : BaseQuery) (o : Options) (ids : List EntityId) :
    Step σ τ Page := fun s =>
  match l.backend.fetchByIds q ((ids.drop o.offset).take o.perPage) s.store with
  | (.error e, store) => (.error (.store e), { s with store := store })
  | (.ok es, store) =>
    (.ok ⟨ids.length, es.map fun e => { entity := e }, .memory⟩, { s with store := store })

/-- A page of all rows sorted by a virtual field, whose order is cached then. -/
def sortedPage (l : Listing σ τ) (heeds : Bool) (q : BaseQuery) (field : String) (o : Options)
    (key : String) : Step σ τ Page := fun s =>
  match l.fetchAll q none s with
  | (.error e, s) => (.error e, s)
  | (.ok rows, s) =>
    match onEngine (l.engine.fill heeds .drop field rows) s with
    | (.error e, s) => (.error e, s)
    | (.ok rows, s) =>
      let rows := sortRows field o.direction rows
      (.ok ⟨rows.length, pageOf o rows, .memory⟩,
        l.cacheOrder key (rows.map fun r => r.entity.id) s)

/-- A page sorted by a virtual field, from a cached order if there is one. -/
def memorySortedPage (l : Listing σ τ) (heeds : Bool) (q : BaseQuery) (field : String)
    (o : Options) : Step σ τ Page := fun s =>
  let key := l.orderKey q field o.direction
  match l.cachedOrder key s with
  | (some ids, s) => l.cachedPage q o ids s
  | (none, s) => l.sortedPage heeds q field o key s

/-- A page sorted by a virtual field, or in the store's order if that is not feasible. -/
def virtualSortedPage (l : Listing σ τ) (heeds : Bool) (q : BaseQuery) (field : String)
    (o : Options) : Step σ τ Page := fun s =>
  let max := l.settings.sort.maxSortRecords
  match l.count q s with
  | .error e => (.error e, s)
  | .ok count =>
    if max < count then
      if l.settings.sort.fallbackEnabled then l.databasePage q none o .fallback s
      else (.error (.filter (.sortLimitExceeded field count max)), s)
    else match l.memorySortedPage heeds q field o s with
      | (.ok page, s) => (.ok page, s)
      | (.error e, s) => if l.fallsBack e then l.databasePage q none o .fallback s else (.error e, s)

/-- The page of a plan. -/
def page (l : Listing σ τ) (heeds : Bool) (plan : ListingPlan) : Step σ τ Page :=
  if plan.translation.hasVirtualFilters then l.filteredPage heeds plan
  else match plan.sort with
    | some (.virtual field) => l.virtualSortedPage heeds plan.query field plan.options
    | some (.column name) =>
      l.databasePage plan.query (some ⟨name, plan.options.direction⟩) plan.options .database
    | none => l.databasePage plan.query none plan.options .none

/-- The virtual fields that a plan selects. -/
def selectedFields (plan : ListingPlan) : List String :=
  match plan.selection with
  | some s => s.virtualFields
  | none => []

/-- The response of a page. -/
def respond (l : Listing σ τ) (p : Params) (plan : ListingPlan) (page : Page) (rows : List Row) :
    Response where
  data := rows.map (Row.render plan.selection)
  filters := plan.translation.active.map Clause.summary
  warnings := plan.warnings
  pagination := Paginator.ofPage page.total plan.options.page plan.options.perPage
    l.settings.pagination.basePath p
  sort := ⟨plan.sort.map SortKey.name, plan.options.direction, page.strategy⟩

/-- The response to a request. The selected virtual fields are computed last, for the rows of the
page only. -/
def execute (l : Listing σ τ) (heeds : Bool) (entityType : String) (p : Params) :
    Step σ τ Response := fun s =>
  match l.engine.catalog.planRequest l.settings entityType p with
  | .error e => (.error (.filter e), s)
  | .ok plan =>
    match l.page heeds plan s with
    | (.error e, s) => (.error e, s)
    | (.ok page, s) =>
      match onEngine (l.engine.fillAll heeds .useDefault (selectedFields plan) page.rows) s with
      | (.error e, s) => (.error e, s)
      | (.ok rows, s) => (.ok (l.respond p plan page rows), s)

end Listing

end FieldQuery
