import FieldQuery.Proofs.Store.Windows

/-!
# Steps of a listing over tables in memory

Each step by its outcome: what the store finds is known, and what remains is what the engine makes of it.

* `databasePage_eq`, `cachedPage_eq`, `sortedPage_eq`, `virtualSortedPage_eq`, `sortFiltered_eq`,
  `filteredPage_eq` — the ways to a page;
* `execute_eq`, `execute_ok_iff`, `execute_refused` — a request with a plan and one without;
* `page_unknown` — a type without a table has no page.

Steps of the store leave the engine alone, and all of them leave the tables alone: `fetchAll_engine`,
`fetchAll_tables` and what stands beside them.
-/

namespace FieldQuery

namespace Listing

variable {σ : Type} {l : Listing σ Store} {s : ListingState σ Store}

/-! ## The engine -/

/-- A step of the engine, by its result. -/
theorem onEngine_eq {α : Type}
    {f : EngineState σ → Except ComputationError α × EngineState σ} {s : ListingState σ Store}
    {r : Except ComputationError α} {engine : EngineState σ} (h : f s.engine = (r, engine)) :
    onEngine f s = (r.mapError .computation, { s with engine := engine }) := by
  unfold onEngine
  rw [h]

/-- Rows that are sorted by a virtual field, if that is feasible. -/
theorem sortFiltered_eq (heeds : Bool) (field : String) (direction : Direction) (rows : List Row) :
    l.sortFiltered heeds field direction rows s =
      match l.engine.fill heeds .drop field rows s.engine with
      | (.ok filled, engine) =>
        (.ok (sortRows field direction filled, .memory), { s with engine := engine })
      | (.error err, engine) =>
        (if l.fallsBack (.computation err) then .ok (rows, .fallback) else .error (.computation err),
          { s with engine := engine }) := by
  unfold sortFiltered
  cases hrun : l.engine.fill heeds .drop field rows s.engine with
  | mk result engine =>
    rw [onEngine_eq hrun]
    cases result with
    | ok filled => rfl
    | error err =>
      dsimp only [Except.mapError]
      split <;> rfl

/-! ## The store -/

/-- A failed count is the store's failure. -/
theorem count_error {τ : Type} {l : Listing σ τ} {q : BaseQuery} {s : ListingState σ τ} {e : Error}
    (h : l.count q s = .error e) : ∃ err, e = .store err := by
  unfold count at h
  cases hcount : l.backend.count q s.store with
  | error err =>
    rw [hcount] at h
    cases h
    exact ⟨err, rfl⟩
  | ok n =>
    rw [hcount] at h
    cases h

theorem databasePage_engine (q : BaseQuery) (order : Option Order) (o : Options)
    (strategy : SortStrategy) : (l.databasePage q order o strategy s).2.engine = s.engine := by
  unfold databasePage
  split
  · rfl
  · split <;> rfl

theorem cachedPage_engine (q : BaseQuery) (o : Options) (ids : List EntityId) :
    (l.cachedPage q o ids s).2.engine = s.engine := by
  unfold cachedPage
  split <;> rfl

theorem fetchAll_engine (q : BaseQuery) (order : Option Order) :
    (l.fetchAll q order s).2.engine = s.engine := by
  unfold fetchAll
  dsimp only
  split <;> rfl

/-- Looking an order up does not touch the store. -/
theorem cachedOrder_store (l : Listing σ Store) (key : String) (s : ListingState σ Store) :
    (l.cachedOrder key s).2.store = s.store := by
  unfold cachedOrder
  split
  · rfl
  · dsimp only
    split <;> rfl

theorem cacheOrder_store (l : Listing σ Store) (key : String) (ids : List EntityId)
    (s : ListingState σ Store) : (l.cacheOrder key ids s).store = s.store := by
  unfold cacheOrder
  split <;> rfl

section Backend

variable (hbackend : l.backend = Store.backend)

section Found

variable {q : BaseQuery} {rows : List Entity} (hrows : s.store.matching q = .ok rows)

include hbackend hrows

/-- The number of matching rows. -/
theorem count_eq : l.count q s = .ok rows.length := by
  unfold count
  rw [hbackend]
  show ((s.store.matching q).map List.length).mapError _ = _
  rw [hrows]
  rfl

/-- A page that the store cuts out. -/
theorem databasePage_eq (order : Option Order) (o : Options) (strategy : SortStrategy) :
    l.databasePage q order o strategy s =
      (.ok ⟨rows.length, pageOf o ((Store.arrange order rows).map fun e =>
        { entity := Store.project q e }), strategy⟩,
        { s with store := { s.store with fetches := s.store.fetches + 1 } }) := by
  have hfetch : l.backend.fetch q order o.offset o.perPage s.store =
      (.ok ((((Store.arrange order rows).drop o.offset).take o.perPage).map (Store.project q)),
        { s.store with fetches := s.store.fetches + 1 }) := by
    rw [hbackend]
    show (s.store.window q order o.offset o.perPage, _) = _
    rw [Store.window_eq hrows]
  unfold databasePage
  rw [count_eq hbackend hrows, hfetch]
  dsimp only
  unfold pageOf
  rw [List.map_map, List.map_take, List.map_drop]
  rfl

/-- A page of a cached order. -/
theorem cachedPage_eq (o : Options) (ids : List EntityId) :
    l.cachedPage q o ids s =
      (.ok ⟨ids.length, (((ids.drop o.offset).take o.perPage).filterMap fun id =>
        Store.rowOf? id rows).map fun e => { entity := Store.project q e }, .memory⟩,
        { s with store := { s.store with fetches := s.store.fetches + 1 } }) := by
  have hfetch : l.backend.fetchByIds q ((ids.drop o.offset).take o.perPage) s.store =
      (.ok ((((ids.drop o.offset).take o.perPage).filterMap fun id =>
        Store.rowOf? id rows).map (Store.project q)),
        { s.store with fetches := s.store.fetches + 1 }) := by
    rw [hbackend]
    show (s.store.withIds q _, _) = _
    unfold Store.withIds
    rw [hrows]
    rfl
  unfold cachedPage
  rw [hfetch]
  dsimp only
  rw [List.map_map]
  rfl

theorem fetchAll_tables (order : Option Order) :
    (l.fetchAll q order s).2.store.tables = s.store.tables := by
  obtain ⟨store, htables, hfetch⟩ := fetchAll_eq hbackend hrows order
  rw [hfetch]
  exact htables

/-- A page of all rows in the order of a field, by what the engine makes of them. -/
theorem sortedPage_eq (heeds : Bool) (field : String) (o : Options) (key : String) :
    l.sortedPage heeds q field o key s =
      match l.engine.fill heeds .drop field (rows.map fun e => { entity := Store.project q e })
        s.engine with
      | (.error err, engine) =>
        (.error (.computation err), ⟨engine, (l.fetchAll q none s).2.store⟩)
      | (.ok filled, engine) =>
        (.ok ⟨(sortRows field o.direction filled).length,
            pageOf o (sortRows field o.direction filled), .memory⟩,
          l.cacheOrder key ((sortRows field o.direction filled).map fun r => r.entity.id)
            ⟨engine, (l.fetchAll q none s).2.store⟩) := by
  obtain ⟨store, -, hfetch⟩ := fetchAll_eq hbackend hrows none
  unfold sortedPage
  rw [hfetch]
  dsimp only [Store.arrange]
  cases hrun : l.engine.fill heeds .drop field (rows.map fun e => { entity := Store.project q e })
      s.engine with
  | mk result engine =>
    rw [onEngine_eq (s := { engine := s.engine, store := store }) hrun]
    cases result <;> rfl

/-- A page in the order of a virtual field, by the number of rows and by what sorting comes to. -/
theorem virtualSortedPage_eq (heeds : Bool) (field : String) (o : Options) :
    l.virtualSortedPage heeds q field o s =
      if l.settings.sort.maxSortRecords < rows.length then
        if l.settings.sort.fallbackEnabled then l.databasePage q none o .fallback s
        else (.error (.filter (.sortLimitExceeded field rows.length
          l.settings.sort.maxSortRecords)), s)
      else match l.memorySortedPage heeds q field o s with
        | (.ok page, s) => (.ok page, s)
        | (.error e, s) =>
          if l.fallsBack e then l.databasePage q none o .fallback s else (.error e, s) := by
  unfold virtualSortedPage
  dsimp only
  rw [count_eq hbackend hrows]
  generalize l.memorySortedPage heeds q field o s = run
  obtain ⟨result, s₁⟩ := run
  cases result <;> rfl

end Found

include hbackend

/-- A page of rows that satisfy clauses, by what the engine makes of all rows. -/
theorem filteredPage_eq {plan : ListingPlan} {rows : List Entity}
    (hrows : s.store.matching plan.query = .ok rows) (heeds : Bool) :
    l.filteredPage heeds plan s =
      if l.settings.sort.maxSortRecords < rows.length then
        (.error (.filter (.tooManyRecords rows.length l.settings.sort.maxSortRecords)), s)
      else match l.engine.narrow heeds plan.translation.virtualClauses
          ((Store.arrange (storeOrder plan.sort plan.options.direction) rows).map fun e =>
            { entity := Store.project plan.query e }) s.engine with
        | (.error err, engine) => (.error (.computation err),
            ⟨engine, (l.fetchAll plan.query (storeOrder plan.sort plan.options.direction) s).2.store⟩)
        | (.ok kept, engine) =>
          match l.arrangeFiltered heeds plan.sort plan.options.direction kept ⟨engine,
            (l.fetchAll plan.query (storeOrder plan.sort plan.options.direction) s).2.store⟩ with
          | (.error e, s) => (.error e, s)
          | (.ok arranged, s) =>
            (.ok ⟨arranged.1.length, pageOf plan.options arranged.1, arranged.2⟩, s) := by
  obtain ⟨store, -, hfetch⟩ := fetchAll_eq hbackend hrows
    (storeOrder plan.sort plan.options.direction)
  unfold filteredPage
  dsimp only
  rw [count_eq hbackend hrows]
  dsimp only
  split
  · rfl
  rw [hfetch]
  dsimp only
  cases hrun : l.engine.narrow heeds plan.translation.virtualClauses
      ((Store.arrange (storeOrder plan.sort plan.options.direction) rows).map fun e =>
        { entity := Store.project plan.query e }) s.engine with
  | mk result engine =>
    rw [onEngine_eq (s := { engine := s.engine, store := store }) hrun]
    cases result with
    | error err => rfl
    | ok kept =>
      dsimp only [Except.mapError]
      generalize l.arrangeFiltered heeds plan.sort plan.options.direction kept
        { engine := engine, store := store } = run
      obtain ⟨arranged, s₁⟩ := run
      cases arranged <;> rfl

/-- A type without a table has no page. -/
theorem page_unknown {plan : ListingPlan} (hnone : s.store.table? plan.query.entityType = none)
    (heeds : Bool) :
    l.page heeds plan s = (.error (.store (.unknownEntityType plan.query.entityType)), s) := by
  have hcount : l.count plan.query s =
      .error (.store (.unknownEntityType plan.query.entityType)) := by
    unfold count
    rw [hbackend]
    show ((s.store.matching plan.query).map List.length).mapError _ = _
    unfold Store.matching
    rw [hnone]
    rfl
  unfold page
  split
  · unfold filteredPage
    rw [hcount]
  · cases plan.sort with
    | none =>
      dsimp only
      unfold databasePage
      rw [hcount]
    | some key =>
      cases key with
      | column name =>
        dsimp only
        unfold databasePage
        rw [hcount]
      | virtual field =>
        dsimp only
        unfold virtualSortedPage
        rw [hcount]

end Backend

/-! ## Requests -/

section Requests

variable {heeds : Bool} {entityType : String} {p : Params}

/-- A request without a plan is refused. -/
theorem execute_refused {err : FilterError}
    (hrequest : l.engine.catalog.planRequest l.settings entityType p = .error err)
    (s : ListingState σ Store) :
    l.execute heeds entityType p s = (.error (.filter err), s) := by
  unfold execute
  rw [hrequest]

/-- The response to a request with a plan, by what the engine makes of the rows of the page. -/
theorem execute_eq {plan : ListingPlan}
    (hrequest : l.engine.catalog.planRequest l.settings entityType p = .ok plan)
    (s : ListingState σ Store) :
    l.execute heeds entityType p s =
      match l.page heeds plan s with
      | (.error e, s) => (.error e, s)
      | (.ok page, s) =>
        match l.engine.fillAll heeds .useDefault (selectedFields plan) page.rows s.engine with
        | (.error err, engine) => (.error (.computation err), { s with engine := engine })
        | (.ok rows, engine) => (.ok (l.respond p plan page rows), { s with engine := engine }) := by
  unfold execute
  rw [hrequest]
  dsimp only
  generalize l.page heeds plan s = run
  obtain ⟨result, s₁⟩ := run
  cases result with
  | error e => rfl
  | ok page =>
    dsimp only
    cases hrun : l.engine.fillAll heeds .useDefault (selectedFields plan) page.rows s₁.engine with
    | mk result engine =>
      rw [onEngine_eq hrun]
      cases result <;> rfl

section Planned

variable {plan : ListingPlan}
  (hrequest : l.engine.catalog.planRequest l.settings entityType p = .ok plan)

include hrequest

/-- A response shows a page whose selected fields have been computed. -/
theorem execute_ok_iff {r : Response} : (l.execute heeds entityType p s).1 = .ok r ↔
    ∃ page s₁ rows, l.page heeds plan s = (.ok page, s₁) ∧
      (l.engine.fillAll heeds .useDefault (selectedFields plan) page.rows s₁.engine).1 = .ok rows ∧
      r = l.respond p plan page rows := by
  rw [execute_eq hrequest]
  cases hpage : l.page heeds plan s with
  | mk found s₁ =>
    cases found with
    | error e =>
      constructor
      · intro h
        cases h
      · rintro ⟨_, _, _, hpage', -⟩
        cases hpage'
    | ok page =>
      cases hfill : l.engine.fillAll heeds .useDefault (selectedFields plan) page.rows s₁.engine with
      | mk filled engine =>
        dsimp only
        rw [hfill]
        constructor
        · intro h
          cases filled with
          | error err => cases h
          | ok rows =>
            cases h
            exact ⟨page, s₁, rows, rfl, congrArg Prod.fst hfill, rfl⟩
        · rintro ⟨_, _, rows, hpage', hfill', rfl⟩
          cases hpage'
          rw [hfill] at hfill'
          cases hfill'
          rfl

end Planned

end Requests

end Listing

end FieldQuery
