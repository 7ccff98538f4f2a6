import FieldQuery.Proofs.Engine.HushedSchedules
import FieldQuery.Proofs.Listing.Forgone

/-!
# Discretion

What computations say when they fail reaches the operator, and never a client.

* `Error.hushed`, `Listing.hushed` — an error and a listing in which computations give one reason;
* `ComputationError.told`, `BatchOutcome.told` — what a client may learn of an error and of a batch;
* `Listing.withCatalog` — the listing with another catalog.

Principal results: `fill_hushed`, `narrow_hushed` and `fillAll_hushed` — rows are filled with the same
values; `page_hushed` and `execute_hushed` — a request comes to the same page and response, or to an error
that says less; `execute_discreet` — the client sees no difference between catalogs that differ in reasons
at most.
-/

namespace FieldQuery

/-! ## Rows -/

namespace Engine

variable {σ : Type} (en : Engine σ)

theorem defaultOf_hushed (field : String) : en.hushed.defaultOf field = en.defaultOf field := by
  unfold defaultOf
  cases hv : en.catalog.virtual? field with
  | none =>
    rw [virtual?_hushed hv]
    rfl
  | some v =>
    rw [virtual?_hushed hv]
    rfl

theorem settle_hushed_outcome (field : String) (excluded : Excluded) (default : Value) (o : BatchOutcome) :
    Row.settle field excluded default o.hushed = Row.settle field excluded default o := by
  funext r
  unfold Row.settle
  rw [BatchOutcome.value?_hushed]

/-- **Rows are filled with the same values.** -/
theorem fill_hushed (heeds : Bool) (excluded : Excluded) (field : String) (rows : List Row)
    (s : EngineState σ) : en.hushed.fill heeds excluded field rows s =
      hushRun id (en.fill heeds excluded field rows s) := by
  rw [fill_eq, fill_eq, computeBatch_hushed, defaultOf_hushed]
  split
  · rfl
  · generalize en.computeBatch heeds field _ s = run
    obtain ⟨r, s'⟩ := run
    cases r with
    | error err => rfl
    | ok o =>
      show (Except.ok (rows.filterMap (Row.settle field excluded _ o.hushed)), s') = _
      rw [settle_hushed_outcome]
      rfl

theorem fillAll_hushed (heeds : Bool) (excluded : Excluded) (fields : List String) :
    ∀ (rows : List Row) (s : EngineState σ), en.hushed.fillAll heeds excluded fields rows s =
      hushRun id (en.fillAll heeds excluded fields rows s) := by
  induction fields with
  | nil => exact fun rows s => rfl
  | cons field fields ih =>
    intro rows s
    unfold fillAll
    rw [fill_hushed]
    generalize en.fill heeds excluded field rows s = run
    obtain ⟨r, s'⟩ := run
    cases r with
    | error err => rfl
    | ok rows => exact ih rows s'

theorem narrow_hushed (heeds : Bool) (clauses : List Clause) :
    ∀ (rows : List Row) (s : EngineState σ), en.hushed.narrow heeds clauses rows s =
      hushRun id (en.narrow heeds clauses rows s) := by
  induction clauses with
  | nil => exact fun rows s => rfl
  | cons cl clauses ih =>
    intro rows s
    unfold narrow
    rw [fill_hushed]
    generalize en.fill heeds .drop cl.field rows s = run
    obtain ⟨r, s'⟩ := run
    cases r with
    | error err => rfl
    | ok rows => exact ih _ s'

end Engine

/-! ## Requests -/

/-- The error with one reason in the place of all reasons of computations. -/
def Error.hushed : Error → Error
  | .computation err => .computation err.hushed
  | err => err

theorem Error.response_hushed (err : Error) : err.hushed.response = err.response := by
  cases err with
  | computation err => exact err.response_hushed
  | _ => rfl

namespace Listing

variable {σ τ : Type}

/-- The listing whose computations give one reason. -/
def hushed (l : Listing σ τ) : Listing σ τ := { l with engine := l.engine.hushed }

/-- A step whose error is hushed. -/
def hushStep {α : Type} (run : Except Error α × ListingState σ τ) : Except Error α × ListingState σ τ :=
  (run.1.mapError Error.hushed, run.2)

/-- A step of an engine that says less is a step of a listing that says less. -/
theorem onEngine_hushed {α : Type} {f f' : EngineState σ → Except ComputationError α × EngineState σ}
    (h : ∀ s, f' s = hushRun id (f s)) (s : ListingState σ τ) :
    onEngine f' s = hushStep (onEngine f s) := by
  unfold onEngine
  rw [h]
  generalize f s.engine = run
  obtain ⟨r, engine⟩ := run
  cases r <;> rfl

variable {l : Listing σ τ}

/-- Whether a sort falls back does not hang on reasons. -/
theorem fallsBack_hushed (err : Error) : l.hushed.fallsBack err.hushed = l.fallsBack err := by
  cases err with
  | computation err => cases err <;> rfl
  | _ => rfl

/-! ### What a store says -/

theorem databasePage_hushed (q : BaseQuery) (order : Option Order) (o : Options) (strategy : SortStrategy)
    (s : ListingState σ τ) :
    l.hushed.databasePage q order o strategy s = hushStep (l.databasePage q order o strategy s) := by
  unfold databasePage
  rw [show l.hushed.count q s = l.count q s from rfl, show l.hushed.backend = l.backend from rfl]
  cases hcount : l.count q s with
  | error err =>
    obtain ⟨err, rfl⟩ := count_error hcount
    rfl
  | ok n =>
    dsimp only
    split <;> rfl

theorem fetchAll_hushed (q : BaseQuery) (order : Option Order) (s : ListingState σ τ) :
    l.hushed.fetchAll q order s = hushStep (l.fetchAll q order s) := by
  show l.fetchAll q order s = _
  unfold fetchAll
  dsimp only
  split <;> rfl

theorem cachedPage_hushed (q : BaseQuery) (o : Options) (ids : List EntityId) (s : ListingState σ τ) :
    l.hushed.cachedPage q o ids s = hushStep (l.cachedPage q o ids s) := by
  show l.cachedPage q o ids s = _
  unfold cachedPage
  split <;> rfl

/-! ### Pages -/

theorem sortFiltered_hushed (heeds : Bool) (field : String) (direction : Direction) (rows : List Row)
    (s : ListingState σ τ) : l.hushed.sortFiltered heeds field direction rows s =
      hushStep (l.sortFiltered heeds field direction rows s) := by
  have hfill := onEngine_hushed (l.engine.fill_hushed heeds .drop field rows) s
  unfold sortFiltered
  rw [show l.hushed.engine = l.engine.hushed from rfl, hfill]
  generalize onEngine (l.engine.fill heeds .drop field rows) s = run
  obtain ⟨r, s'⟩ := run
  cases r with
  | ok rows => rfl
  | error err =>
    show (if l.hushed.fallsBack err.hushed then _ else _) = _
    rw [fallsBack_hushed]
    dsimp only
    split <;> rfl

theorem arrangeFiltered_hushed (heeds : Bool) (sort : Option SortKey) (direction : Direction)
    (rows : List Row) (s : ListingState σ τ) : l.hushed.arrangeFiltered heeds sort direction rows s =
      hushStep (l.arrangeFiltered heeds sort direction rows s) := by
  unfold arrangeFiltered
  split
  · rfl
  · rfl
  · exact sortFiltered_hushed heeds _ direction rows s

theorem filteredPage_hushed (heeds : Bool) (plan : ListingPlan) (s : ListingState σ τ) :
    l.hushed.filteredPage heeds plan s = hushStep (l.filteredPage heeds plan s) := by
  unfold filteredPage
  dsimp only
  rw [show l.hushed.count plan.query s = l.count plan.query s from rfl,
    show l.hushed.settings = l.settings from rfl]
  cases hcount : l.count plan.query s with
  | error err =>
    obtain ⟨err, rfl⟩ := count_error hcount
    rfl
  | ok count =>
    dsimp only
    split
    · rfl
    rw [fetchAll_hushed]
    generalize l.fetchAll plan.query _ s = run
    obtain ⟨r, s₁⟩ := run
    cases r with
    | error err => rfl
    | ok rows =>
      have hnarrow := onEngine_hushed
        (l.engine.narrow_hushed heeds plan.translation.virtualClauses rows) s₁
      dsimp only [hushStep, Except.mapError]
      rw [show l.hushed.engine = l.engine.hushed from rfl, hnarrow]
      generalize onEngine (l.engine.narrow heeds plan.translation.virtualClauses rows) s₁ = run
      obtain ⟨r, s₂⟩ := run
      cases r with
      | error err => rfl
      | ok rows =>
        dsimp only [hushStep, Except.mapError]
        rw [arrangeFiltered_hushed]
        generalize l.arrangeFiltered heeds plan.sort plan.options.direction rows s₂ = run
        obtain ⟨r, s₃⟩ := run
        cases r <;> rfl

theorem sortedPage_hushed (heeds : Bool) (q : BaseQuery) (field : String) (o : Options) (key : String)
    (s : ListingState σ τ) :
    l.hushed.sortedPage heeds q field o key s = hushStep (l.sortedPage heeds q field o key s) := by
  unfold sortedPage
  rw [fetchAll_hushed]
  generalize l.fetchAll q none s = run
  obtain ⟨r, s₁⟩ := run
  cases r with
  | error err => rfl
  | ok rows =>
    have hfill := onEngine_hushed (l.engine.fill_hushed heeds .drop field rows) s₁
    dsimp only [hushStep, Except.mapError]
    rw [show l.hushed.engine = l.engine.hushed from rfl, hfill]
    generalize onEngine (l.engine.fill heeds .drop field rows) s₁ = run
    obtain ⟨r, s₂⟩ := run
    cases r <;> rfl

theorem memorySortedPage_hushed (heeds : Bool) (q : BaseQuery) (field : String) (o : Options)
    (s : ListingState σ τ) :
    l.hushed.memorySortedPage heeds q field o s = hushStep (l.memorySortedPage heeds q field o s) := by
  unfold memorySortedPage
  dsimp only
  rw [show l.hushed.orderKey q field o.direction = l.orderKey q field o.direction from rfl,
    show l.hushed.cachedOrder = l.cachedOrder from rfl]
  generalize l.cachedOrder _ s = found
  obtain ⟨ids, s₁⟩ := found
  cases ids with
  | none => exact sortedPage_hushed heeds q field o _ s₁
  | some ids => exact cachedPage_hushed q o ids s₁

theorem virtualSortedPage_hushed (heeds : Bool) (q : BaseQuery) (field : String) (o : Options)
    (s : ListingState σ τ) :
    l.hushed.virtualSortedPage heeds q field o s = hushStep (l.virtualSortedPage heeds q field o s) := by
  unfold virtualSortedPage
  dsimp only
  rw [show l.hushed.count q s = l.count q s from rfl, show l.hushed.settings = l.settings from rfl]
  cases hcount : l.count q s with
  | error err =>
    obtain ⟨err, rfl⟩ := count_error hcount
    rfl
  | ok count =>
    dsimp only
    split
    · split
      · exact databasePage_hushed q none o .fallback s
      · rfl
    rw [memorySortedPage_hushed]
    generalize l.memorySortedPage heeds q field o s = run
    obtain ⟨r, s₁⟩ := run
    cases r with
    | ok page => rfl
    | error err =>
      show (if l.hushed.fallsBack err.hushed then _ else _) = _
      rw [fallsBack_hushed]
      dsimp only
      split
      · exact databasePage_hushed q none o .fallback s₁
      · rfl

/-- **A request comes to the same page, or to an error that says less.** -/
theorem page_hushed (heeds : Bool) (plan : ListingPlan) (s : ListingState σ τ) :
    l.hushed.page heeds plan s = hushStep (l.page heeds plan s) := by
  unfold page
  split
  · exact filteredPage_hushed heeds plan s
  · rcases plan.sort with _ | name | field
    · exact databasePage_hushed plan.query none plan.options .none s
    · exact databasePage_hushed plan.query _ plan.options .database s
    · exact virtualSortedPage_hushed heeds plan.query field plan.options s

/-- **A request has the response that it had, or an error that says less.** -/
theorem execute_hushed (heeds : Bool) (entityType : String) (p : Params) (s : ListingState σ τ) :
    l.hushed.execute heeds entityType p s = hushStep (l.execute heeds entityType p s) := by
  unfold execute
  rw [show l.hushed.engine.catalog = l.engine.catalog.hushed from rfl,
    show l.hushed.settings = l.settings from rfl]
  unfold Catalog.hushed
  rw [Catalog.planRequest_recast]
  cases l.engine.catalog.planRequest l.settings entityType p with
  | error err => rfl
  | ok plan =>
    dsimp only
    rw [page_hushed]
    generalize l.page heeds plan s = run
    obtain ⟨r, s₁⟩ := run
    cases r with
    | error err => rfl
    | ok page =>
      have hfill := onEngine_hushed
        (l.engine.fillAll_hushed heeds .useDefault (selectedFields plan) page.rows) s₁
      dsimp only [hushStep, Except.mapError]
      rw [show l.hushed.engine = l.engine.hushed from rfl, hfill]
      generalize onEngine (l.engine.fillAll heeds .useDefault (selectedFields plan) page.rows) s₁ = run
      obtain ⟨r, s₂⟩ := run
      cases r <;> rfl

end Listing

/-! ## Clients -/

/-- What a client learns of an error. -/
def ComputationError.told (err : ComputationError) : ErrorResponse := (Error.computation err).response

/-- What a client may learn of a batch: of each entity its value or the response to its failure, and the
counts. -/
def BatchOutcome.told (o : BatchOutcome) :
    List (EntityId × Except ErrorResponse Value) × BatchStats :=
  (o.results.map fun t => (t.1, t.2.mapError ComputationError.told), o.stats)

/-- The listing with another catalog. -/
def Listing.withCatalog {σ τ : Type} (c : Catalog) (l : Listing σ τ) : Listing σ τ :=
  { l with engine := { l.engine with catalog := c } }

theorem BatchOutcome.told_hushed (o : BatchOutcome) : o.hushed.told = o.told := by
  have hresult : ∀ t ∈ o.results, (t.1, (hush id t.2).mapError ComputationError.told) =
      (t.1, t.2.mapError ComputationError.told) := by
    rintro ⟨key, r⟩ _
    cases r with
    | error err => exact congrArg (fun told => (key, Except.error told)) err.response_hushed
    | ok value => rfl
  unfold BatchOutcome.told BatchOutcome.hushed Results.hushed
  dsimp only
  rw [List.map_map]
  exact congrArg (·, o.stats) (List.map_congr_left hresult)

/-- A client learns the same of batches that are the same when they are hushed. -/
theorem told_of_hushRun {γ : Type} {served served' : Except ComputationError BatchOutcome × γ}
    (h : hushRun BatchOutcome.hushed served = hushRun BatchOutcome.hushed served') :
    (served.1.map BatchOutcome.told).mapError ComputationError.told =
      (served'.1.map BatchOutcome.told).mapError ComputationError.told ∧ served.2 = served'.2 := by
  have htold : ∀ x : Except ComputationError BatchOutcome,
      (x.map BatchOutcome.told).mapError ComputationError.told =
        ((hush BatchOutcome.hushed x).map BatchOutcome.told).mapError ComputationError.told := by
    intro x
    cases x with
    | error err => exact congrArg Except.error err.response_hushed.symm
    | ok o => exact congrArg Except.ok o.told_hushed.symm
  obtain ⟨hresult, hleft⟩ := Prod.ext_iff.1 h
  refine ⟨(htold served.1).trans (Eq.trans ?_ (htold served'.1).symm), hleft⟩
  exact congrArg (fun x => (x.map BatchOutcome.told).mapError ComputationError.told) hresult

namespace Listing

/-- A client sees the same of steps that are the same when they are hushed. -/
theorem told_of_hushStep {σ τ α : Type} {run run' : Except Error α × ListingState σ τ}
    (h : hushStep run = hushStep run') :
    run.1.mapError Error.response = run'.1.mapError Error.response ∧ run.2 = run'.2 := by
  have htold : ∀ x : Except Error α,
      x.mapError Error.response = (x.mapError Error.hushed).mapError Error.response := by
    intro x
    cases x with
    | error err => exact congrArg Except.error err.response_hushed.symm
    | ok a => rfl
  obtain ⟨hresult, hleft⟩ := Prod.ext_iff.1 h
  refine ⟨(htold run.1).trans (Eq.trans ?_ (htold run'.1).symm), hleft⟩
  exact congrArg (fun x => x.mapError Error.response) hresult

/-- **A client sees no difference between catalogs that differ in the reasons of failures at most**: a
request has one response, or errors to which there is one response, and leaves one state behind.  Of a batch
a client may learn the same even if the entities of a chunk are computed side by side.  The response to an
error does not hang on the reasons in it, however deep they are in a failed batch. -/
theorem execute_discreet :
    (∀ err err' : ComputationError, err.SameButReasons err' → err.told = err'.told) ∧
    ∀ {σ τ : Type} (l : Listing σ τ) (c : Catalog), l.engine.catalog.SameButReasons c →
      (∀ (heeds : Bool) (entityType : String) (p : Params) (s : ListingState σ τ),
        (l.execute heeds entityType p s).1.mapError Error.response =
            ((l.withCatalog c).execute heeds entityType p s).1.mapError Error.response ∧
          (l.execute heeds entityType p s).2 = ((l.withCatalog c).execute heeds entityType p s).2) ∧
      ∀ (call : BatchCall) (s : EngineState σ)
        (served : Except ComputationError BatchOutcome × EngineState σ),
        Engine.Serves l.engine call s served →
          ∃ served', Engine.Serves (l.withCatalog c).engine call s served' ∧
            (served.1.map BatchOutcome.told).mapError ComputationError.told =
              (served'.1.map BatchOutcome.told).mapError ComputationError.told ∧
            served.2 = served'.2 := by
  constructor
  · intro err err' h
    unfold ComputationError.told
    rw [← err.response_hushed, h.hushed, err'.response_hushed]
  intro σ τ l c h
  have hengine : l.engine.hushed = (l.withCatalog c).engine.hushed := by
    show Engine.mk l.engine.catalog.hushed _ _ _ _ = Engine.mk c.hushed _ _ _ _
    rw [h.hushed]
    rfl
  have hlisting : l.hushed = (l.withCatalog c).hushed := by
    unfold hushed
    rw [hengine]
    rfl
  constructor
  · intro heeds entityType p s
    refine told_of_hushStep ?_
    rw [← execute_hushed, ← execute_hushed, hlisting]
  · intro call s served hserves
    obtain ⟨served', hserves', hsame⟩ := Engine.Serves.same hengine hserves
    exact ⟨served', hserves', told_of_hushRun hsame⟩

/-- The halves, where failures have another reason. -/
def excusing (reason : String) : Catalog where
  virtualFields := [("half", listedHalf.recompute fun e i =>
    { listedHalf.computation e i with
      value := (listedHalf.computation e i).value.mapError fun _ => reason })]

theorem sameButReasons_excusing (reason : String) :
    aborting.engine.catalog.SameButReasons (excusing reason) where
  fields := rfl
  aliases := rfl
  virtualFields := by
    refine .cons ⟨rfl, rfl, fun e i => ⟨?_, rfl, rfl⟩⟩ .nil
    show _ = ((listedHalf.computation e i).value.mapError fun _ => reason).toOption
    cases (listedHalf.computation e i).value <;> rfl

/-- A request for all halves, of which the second one fails. -/
def pageOfHalves : Params := ⟨[("fields", "half")]⟩

/-- The operator learns that a count is odd, or that a database is down, and a client neither. -/
theorem execute_discreet_oddCount :
    (aborting.execute false "item" pageOfHalves itemsState).1.map (fun _ => ()) =
      .error (.computation (.batchFailed "half" 1 (.callbackFailed "half" ⟨"item", .int 2⟩ "odd"))) ∧
    ((aborting.withCatalog (excusing "db-7 is down")).execute false "item" pageOfHalves itemsState).1.map
        (fun _ => ()) = .error (.computation
          (.batchFailed "half" 1 (.callbackFailed "half" ⟨"item", .int 2⟩ "db-7 is down"))) ∧
    (aborting.execute false "item" pageOfHalves itemsState).1.mapError Error.response =
      ((aborting.withCatalog (excusing "db-7 is down")).execute false "item" pageOfHalves
        itemsState).1.mapError Error.response ∧
    ComputationError.told (.batchFailed "sum" 3
        (.batchFailed "half" 1 (.callbackFailed "half" ⟨"item", .int 2⟩ "odd"))) =
      ComputationError.told (.batchFailed "sum" 3
        (.batchFailed "half" 1 (.callbackFailed "half" ⟨"item", .int 2⟩ "db-7 is down"))) ∧
    ∃ served', Engine.Serves (aborting.withCatalog (excusing "db-7 is down")).engine
        { field := "half", entities := items } itemsState.engine served' ∧
      ((aborting.engine.callBatch { field := "half", entities := items }
          itemsState.engine).1.map BatchOutcome.told).mapError ComputationError.told =
        (served'.1.map BatchOutcome.told).mapError ComputationError.told := by
  obtain ⟨hrequests, hbatches⟩ := execute_discreet.2 aborting (excusing "db-7 is down")
    (sameButReasons_excusing _)
  obtain ⟨served', hserves, htold, -⟩ :=
    hbatches { field := "half", entities := items } itemsState.engine _ .inOrder
  refine ⟨by decide +kernel, by decide +kernel, (hrequests false "item" pageOfHalves itemsState).1, ?_,
    served', hserves, htold⟩
  exact execute_discreet.1 _ _ (.batch "sum" 3 (.batch "half" 1 (.callback _ _ _ _)))

end Listing

end FieldQuery
