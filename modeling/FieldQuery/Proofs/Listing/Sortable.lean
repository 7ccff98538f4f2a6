import FieldQuery.Proofs.Listing.Commuting
import FieldQuery.Proofs.Listing.Consecutive
import FieldQuery.Proofs.Listing.SortStep

/-!
# Which sorts are given up

Whether a page comes in the order of a virtual field or in that of the store is settled by the rows that
are to be sorted, and by nothing that a request loads or selects besides.

* `Listing.Sortable` — the rows of a plan can be sorted by a virtual field;
* `Listing.Settles` — the strategy that a plan comes to.

Principal results: `fill_sortable` — what the batch for the field to sort by comes to tells whether the
rows can be sorted, `page_settles` — a page that succeeds has the strategy that its plan comes to, and
`execute_settles`.
-/

namespace FieldQuery

open Meaning

variable {σ : Type}

/-! ## Strategies -/

namespace Listing

/-- The rows of a plan can be sorted by a virtual field: there are not too many of them, and the field is
computed for a clause or can be computed for all of them. -/
structure Sortable (l : Listing σ Store) (plan : ListingPlan) (table : List Entity) (field : String) :
    Prop where
  few : (plan.admitted table).length ≤ l.settings.sort.maxSortRecords
  managed : (∃ cl ∈ plan.translation.virtualClauses, cl.field = field) ∨
    l.engine.Manages field ((plan.chosen l.engine.catalog l.engine.settings.failurePolicy table).map
      Entity.whole)

/-- The strategy that a plan comes to: the one that has been asked for, unless its rows cannot be sorted
by the virtual field that has been asked for. -/
inductive Settles (l : Listing σ Store) (plan : ListingPlan) (table : List Entity) :
    SortStrategy → Prop
  | asked (h : ∀ field, plan.sort = some (.virtual field) → l.Sortable plan table field) :
    Settles l plan table plan.strategy
  | given_up {field : String} (hsort : plan.sort = some (.virtual field))
    (h : ¬ l.Sortable plan table field) : Settles l plan table .fallback

theorem Settles.unique {l : Listing σ Store} {plan : ListingPlan} {table : List Entity}
    {strategy strategy' : SortStrategy} (h : l.Settles plan table strategy)
    (h' : l.Settles plan table strategy') : strategy = strategy' := by
  cases h with
  | asked h =>
    cases h' with
    | asked _ => rfl
    | given_up hsort hnot => exact absurd (h _ hsort) hnot
  | given_up hsort hnot =>
    cases h' with
    | asked h => exact absurd (h _ hsort) hnot
    | given_up _ _ => rfl

section Pages

variable {l : Listing σ Store} (hl : l.Recomputes) {tables : KeyMap (List Entity)}
  {asks : OrderAsk → Prop} {start : σ} {plan : ListingPlan} {table : List Entity}
  (hplan : plan.Finds l.engine.catalog tables table) {heeds : Bool}

/-- A sort does not fall back when its request has been cancelled. -/
theorem fallsBack_cancelled (field : String) :
    l.fallsBack (.computation (.cancelled field)) = false := by
  rw [fallsBack_computation]
  exact Bool.and_false _

include hl hplan

variable (heeds) in
/-- **Filling the rows that are to be sorted tells whether they can be**, unless the token ends it. -/
theorem fill_sortable {field : String} (hsort : plan.sort = some (.virtual field))
    (hfew : (plan.admitted table).length ≤ l.settings.sort.maxSortRecords) {rows : List Row}
    (hrows : rows.map (·.entity) = (plan.chosen l.engine.catalog l.engine.settings.failurePolicy
      table).map (Store.project plan.query))
    (hhas : ∀ r ∈ rows, ∀ name,
      r.has name = true ↔ ∃ cl ∈ plan.translation.virtualClauses, cl.field = name)
    (s : EngineState σ) :
    (l.engine.fill heeds .drop field rows s).1 = .error (.cancelled field) ∨
      ((∃ filled, (l.engine.fill heeds .drop field rows s).1 = .ok filled) ↔
        l.Sortable plan table field) := by
  have hwants : plan.Wants field := .inr hsort
  by_cases hclause : ∃ cl ∈ plan.translation.virtualClauses, cl.field = field
  · rw [Engine.fill_of_has fun r hr => (hhas r hr field).2 hclause]
    exact .inr (iff_of_true ⟨rows, rfl⟩ ⟨hfew, .inl hclause⟩)
  · have hlacks : ∀ r ∈ rows, r.value? field = none := fun r hr =>
      Option.not_isSome_iff_eq_none.1 fun hsome => hclause ((hhas r hr field).1 hsome)
    refine (fill_tells hl.lawful hl.inputs.isPure hl.engineCache (hplan.sufficient.wanted field hwants) hlacks
      heeds .drop s).imp_right fun htells => htells.trans ?_
    rw [hrows, manages_loaded hl.lawful hl.inputs hplan.sufficient hwants hl.engineCache]
    exact ⟨fun h => ⟨hfew, .inr h⟩, fun h => h.managed.resolve_left hclause⟩

/-- Rows that satisfy all clauses have the strategy that the plan comes to. -/
theorem arrangeFiltered_settles
    (hfew : (plan.admitted table).length ≤ l.settings.sort.maxSortRecords) {rows : List Row}
    (hrows : rows.map (·.entity) = (plan.chosen l.engine.catalog l.engine.settings.failurePolicy
      table).map (Store.project plan.query))
    (hhas : ∀ r ∈ rows, ∀ name,
      r.has name = true ↔ ∃ cl ∈ plan.translation.virtualClauses, cl.field = name)
    {s : ListingState σ Store} {arranged : List Row × SortStrategy}
    (h : (l.arrangeFiltered heeds plan.sort plan.options.direction rows s).1 = .ok arranged) :
    l.Settles plan table arranged.2 := by
  have hasked : ∀ strategy, plan.strategy = strategy →
      (∀ field, plan.sort = some (.virtual field) → l.Sortable plan table field) →
        l.Settles plan table strategy := by
    rintro _ rfl hsortable
    exact .asked hsortable
  unfold arrangeFiltered at h
  cases hsort : plan.sort with
  | none =>
    rw [hsort] at h
    cases h
    exact hasked _ (by unfold ListingPlan.strategy; rw [hsort]) fun field h => nomatch hsort.symm.trans h
  | some key =>
    cases key with
    | column name =>
      rw [hsort] at h
      cases h
      exact hasked _ (by unfold ListingPlan.strategy; rw [hsort]) fun field h => nomatch hsort.symm.trans h
    | virtual field =>
      have hsortable := fill_sortable hl hplan heeds hsort hfew hrows hhas s.engine
      rw [hsort] at h
      dsimp only at h
      rw [sortFiltered_eq] at h
      generalize l.engine.fill heeds .drop field rows s.engine = run at h hsortable
      obtain ⟨result, engine⟩ := run
      cases result with
      | ok filled =>
        cases h
        refine hasked _ (by unfold ListingPlan.strategy; rw [hsort]) fun field' h => ?_
        cases hsort.symm.trans h
        exact (hsortable.resolve_left fun h => nomatch h).1 ⟨filled, rfl⟩
      | error err =>
        dsimp only at h
        split at h
        · rename_i hfalls
          cases h
          refine .given_up hsort fun hyes => ?_
          rcases hsortable with hcancelled | htells
          · cases hcancelled
            rw [fallsBack_cancelled] at hfalls
            cases hfalls
          · obtain ⟨_, hok⟩ := htells.2 hyes
            cases hok
        · cases h

/-- A page of the rows that satisfy clauses on virtual fields. -/
theorem filteredPage_settles {s : ListingState σ Store} (htables : s.store.tables = tables) {page : Page}
    (h : (l.filteredPage heeds plan s).1 = .ok page) : l.Settles plan table page.strategy := by
  rw [filteredPage_eq hl.backend (hplan.matching htables)] at h
  split at h
  · cases h
  rename_i hmax
  have hnarrow := fun kept => @narrow_lists σ l hl tables plan table hplan heeds s.engine kept
  have hnarrowed := fun kept => @Engine.narrow_gains σ l.engine heeds plan.translation.virtualClauses
    ((Store.arrange (storeOrder plan.sort plan.options.direction) (plan.admitted table)).map fun e =>
      { entity := Store.project plan.query e }) kept s.engine
  generalize l.engine.narrow heeds plan.translation.virtualClauses _ s.engine = run
    at h hnarrow hnarrowed
  generalize (l.fetchAll plan.query (storeOrder plan.sort plan.options.direction) s).2.store = store at h
  obtain ⟨result, engine⟩ := run
  cases result with
  | error err => cases h
  | ok kept =>
    have hhas : ∀ r ∈ kept, ∀ name,
        r.has name = true ↔ ∃ cl ∈ plan.translation.virtualClauses, cl.field = name := by
      intro r hr name
      obtain ⟨r₀, hr₀, hgains⟩ := hnarrowed kept rfl r hr
      obtain ⟨e, -, rfl⟩ := List.mem_map.1 hr₀
      exact (hgains.has name).trans ⟨fun h => h.resolve_right fun h => (nomatch h), .inl⟩
    have harranged := fun arranged => @arrangeFiltered_settles σ l hl tables plan table hplan heeds
      (Nat.not_lt.1 hmax) kept (hnarrow kept rfl).1 hhas ⟨engine, store⟩ arranged
    dsimp only at h
    generalize l.arrangeFiltered heeds plan.sort plan.options.direction kept ⟨engine, store⟩ = last
      at h harranged
    obtain ⟨result, s₁⟩ := last
    cases result with
    | error e => cases h
    | ok arranged =>
      cases h
      exact harranged arranged rfl

section Sorted

variable {field : String} (hsort : plan.sort = some (.virtual field))
  (hnone : plan.translation.virtualClauses = [])
  (hfew : (plan.admitted table).length ≤ l.settings.sort.maxSortRecords)

include hsort hnone hfew

variable (heeds) in
/-- A page of all rows sorted by a virtual field tells whether they can be sorted. -/
theorem sortedPage_sortable {s : ListingState σ Store} (htables : s.store.tables = tables)
    (key : String) :
    (∀ page, (l.sortedPage heeds plan.query field plan.options key s).1 = .ok page →
        l.Sortable plan table field) ∧
      ∀ e, (l.sortedPage heeds plan.query field plan.options key s).1 = .error e →
        l.fallsBack e = true → ¬ l.Sortable plan table field := by
  have hrows : ((((plan.admitted table).map (Store.project plan.query)).map fun e =>
      ({ entity := e } : Row)).map (·.entity)) =
        (plan.chosen l.engine.catalog l.engine.settings.failurePolicy table).map
          (Store.project plan.query) := by
    rw [entities_loaded_id, ListingPlan.chosen_eq hnone, hsort]
    rfl
  have hsortable := fill_sortable hl hplan heeds hsort hfew hrows (fun r hr name => by
    obtain ⟨e, -, rfl⟩ := List.mem_map.1 hr
    rw [hnone]
    exact ⟨fun h => (nomatch h), fun ⟨_, h, _⟩ => (nomatch h)⟩) s.engine
  rw [sortedPage_fst heeds hl.backend (hplan.matching htables)]
  cases hrun : (l.engine.fill heeds .drop field
      (((plan.admitted table).map (Store.project plan.query)).map fun e => { entity := e }) s.engine).1 with
  | ok filled =>
    rw [hrun] at hsortable
    refine ⟨fun _ _ => (hsortable.resolve_left fun h => nomatch h).1 ⟨filled, rfl⟩, ?_⟩
    intro e h
    cases h
  | error err =>
    rw [hrun] at hsortable
    refine ⟨fun page h => (nomatch h), fun e h hfalls hyes => ?_⟩
    cases h
    rcases hsortable with hcancelled | htells
    · cases hcancelled
      rw [fallsBack_cancelled] at hfalls
      cases hfalls
    · obtain ⟨_, hok⟩ := htells.2 hyes
      cases hok

variable (heeds) in
/-- So does a page that is cut out of a cached order. -/
theorem memorySortedPage_sortable (htrusted : l.Trusted asks start)
    (hask : asks ⟨plan.query, field, plan.options.direction⟩) {s : ListingState σ Store}
    (htables : s.store.tables = tables) (hholds : l.Holds tables asks start s.engine) :
    (∀ page, (l.memorySortedPage heeds plan.query field plan.options s).1 = .ok page →
        l.Sortable plan table field) ∧
      ∀ e, (l.memorySortedPage heeds plan.query field plan.options s).1 = .error e →
        l.fallsBack e = true → ¬ l.Sortable plan table field := by
  have hstore := l.cachedOrder_store (l.orderKey plan.query field plan.options.direction) s
  have hfound := fun ids => @cachedOrder_orders σ l tables asks start s htrusted hholds _ hask ids
  unfold memorySortedPage
  dsimp only at hfound ⊢
  generalize l.cachedOrder (l.orderKey plan.query field plan.options.direction) s = looked
    at hstore hfound ⊢
  obtain ⟨found, s₁⟩ := looked
  have htables₁ : s₁.store.tables = tables := (congrArg Store.tables hstore).trans htables
  cases found with
  | none => exact sortedPage_sortable hl hplan heeds hsort hnone hfew htables₁ _
  | some ids =>
    obtain ⟨rows, horders⟩ := hfound ids rfl
    obtain rfl : plan.admitted table = rows := Except.ok.inj (hplan.found.symm.trans horders.found)
    have hchosen : plan.chosen l.engine.catalog l.engine.settings.failurePolicy table =
        plan.admitted table := by
      rw [ListingPlan.chosen_eq hnone, hsort]
      rfl
    dsimp only
    rw [cachedPage_eq hl.backend (hplan.matching htables₁)]
    refine ⟨fun _ _ => ⟨hfew, .inr ?_⟩, fun e h => (nomatch h)⟩
    rw [hchosen]
    exact horders.managed

end Sorted

/-- A page sorted by a virtual field, or in the order of the store. -/
theorem virtualSortedPage_settles {field : String} (hsort : plan.sort = some (.virtual field))
    (hnone : plan.translation.virtualClauses = []) (htrusted : l.Trusted asks start)
    (hask : asks ⟨plan.query, field, plan.options.direction⟩) {s : ListingState σ Store}
    (htables : s.store.tables = tables) (hholds : l.Holds tables asks start s.engine) {page : Page}
    (h : (l.virtualSortedPage heeds plan.query field plan.options s).1 = .ok page) :
    l.Settles plan table page.strategy := by
  have hfallback : ∀ (s : ListingState σ Store) page, ¬ l.Sortable plan table field →
      (l.databasePage plan.query none plan.options .fallback s).1 = .ok page →
        l.Settles plan table page.strategy := by
    intro s page hnot h
    rw [databasePage_strategy h]
    exact .given_up hsort hnot
  rw [virtualSortedPage_eq hl.backend (hplan.matching htables)] at h
  by_cases hmax : l.settings.sort.maxSortRecords < (plan.admitted table).length
  · rw [if_pos hmax] at h
    split at h
    · exact hfallback s page (fun hyes => absurd hyes.few (Nat.not_le.2 hmax)) h
    · cases h
  · rw [if_neg hmax] at h
    have hmemory := memorySortedPage_sortable hl hplan heeds hsort hnone
      (Nat.not_lt.1 hmax) htrusted hask htables hholds
    have hstrategy := fun found => @memorySortedPage_strategy σ l heeds s found plan.query field plan.options
    generalize l.memorySortedPage heeds plan.query field plan.options s = run at h hmemory hstrategy
    obtain ⟨result, s₁⟩ := run
    cases result with
    | ok found =>
      cases h
      rw [hstrategy page rfl, show SortStrategy.memory = plan.strategy by
        unfold ListingPlan.strategy; rw [hsort]]
      refine .asked fun field' h => ?_
      cases hsort.symm.trans h
      exact hmemory.1 page rfl
    | error e =>
      dsimp only at h
      split at h
      · rename_i hfalls
        exact hfallback s₁ page (hmemory.2 e rfl hfalls) h
      · cases h

/-- **A page that succeeds has the strategy that its plan comes to.** -/
theorem page_settles (htrusted : l.Trusted asks start)
    (hasks : ∀ field, plan.sort = some (.virtual field) →
      asks ⟨plan.query, field, plan.options.direction⟩) {s : ListingState σ Store}
    (htables : s.store.tables = tables) (hholds : l.Holds tables asks start s.engine) {page : Page}
    (h : (l.page heeds plan s).1 = .ok page) : l.Settles plan table page.strategy := by
  unfold Listing.page at h
  split at h
  · exact filteredPage_settles hl hplan htables h
  · rename_i hfilters
    have hnone : plan.translation.virtualClauses = [] := by
      unfold Translation.hasVirtualFilters at hfilters
      simpa using hfilters
    have hasked : ∀ strategy, plan.strategy = strategy →
        (∀ field, plan.sort ≠ some (.virtual field)) → l.Settles plan table strategy := by
      rintro _ rfl hother
      exact .asked fun field h => absurd h (hother field)
    cases hsort : plan.sort with
    | none =>
      rw [hsort] at h
      rw [databasePage_strategy h]
      exact hasked _ (by unfold ListingPlan.strategy; rw [hsort]) fun field h => nomatch hsort.symm.trans h
    | some key =>
      cases key with
      | column name =>
        rw [hsort] at h
        rw [databasePage_strategy h]
        exact hasked _ (by unfold ListingPlan.strategy; rw [hsort]) fun field h => nomatch hsort.symm.trans h
      | virtual field =>
        rw [hsort] at h
        exact virtualSortedPage_settles hl hplan hsort hnone htrusted (hasks field hsort) htables hholds h

/-- **A response has the strategy that its plan comes to.** -/
theorem execute_settles (htrusted : l.Trusted asks start)
    (hasks : ∀ field, plan.sort = some (.virtual field) →
      asks ⟨plan.query, field, plan.options.direction⟩) {entityType : String} {p : Params}
    (hrequest : l.engine.catalog.planRequest l.settings entityType p = .ok plan)
    {s : ListingState σ Store} (htables : s.store.tables = tables)
    (hholds : l.Holds tables asks start s.engine) {r : Response}
    (h : (l.execute heeds entityType p s).1 = .ok r) : l.Settles plan table r.sort.strategy := by
  obtain ⟨page, s₁, rows, hrun, -, rfl⟩ := (execute_ok_iff hrequest).1 h
  exact page_settles hl hplan htrusted hasks htables hholds (congrArg Prod.fst hrun)

end Pages

end Listing

end FieldQuery
