import FieldQuery.Proofs.Listing.Transparent

/-!
# What a successful page is cut out of

A page that succeeds under some strategy is a window on one list of rows, whichever way has led to it:
cut out by the store, sorted in memory, or taken from an order that has been cached.  Nothing is said of
requests that fail, so policies, ceilings and tokens do not matter.

* `ListingPlan.chosen` — the rows that satisfy all clauses, in the order of the store;
* `ListingPlan.listed` — the rows of all pages under a strategy, `ListingPlan.strategy` — the one that has
  been asked for;
* `Page.Lists`, `Response.Lists` — a page, or a response, is the window on these rows.

Principal results: `page_lists` — a page that succeeds is that window, `execute_lists` — so are the rows of
a response, and `listed_perm` — the rows of all pages are those that satisfy all clauses, without those
that are left out for the virtual field to sort by.
-/

namespace FieldQuery

open Meaning

variable {σ : Type}

namespace ListingPlan

variable (c : Catalog) (policy : FailurePolicy) (plan : ListingPlan)

/-- The rows that satisfy all clauses, in the order of the store, which may sort by a column. -/
def chosen (table : List Entity) : List Entity :=
  (Store.arrange (Listing.storeOrder plan.sort plan.options.direction) (plan.admitted table)).filter
    (plan.translation.chooses c policy)

/-- The rows of all pages under a strategy. -/
def listed (strategy : SortStrategy) (table : List Entity) : List Entity :=
  match plan.sort, strategy with
  | some (.virtual field), .memory =>
    orderOf c policy field plan.options.direction (plan.chosen c policy table)
  | _, _ => plan.chosen c policy table

/-- The strategy of a page that is in the order that has been asked for. -/
def strategy : SortStrategy :=
  match plan.sort with
  | none => .none
  | some (.column _) => .database
  | some (.virtual _) => .memory

/-- Whether a row is on some page under a strategy. -/
def belongs (strategy : SortStrategy) (e : Entity) : Bool :=
  plan.translation.admits e && plan.translation.chooses c policy e &&
    (strategy != .memory || plan.isSorted c policy e)

variable {c policy plan} {table : List Entity}

theorem chosen_perm : (plan.chosen c policy table).Perm
    (table.filter fun e => plan.translation.admits e && plan.translation.chooses c policy e) := by
  have hperm := (Store.arrange_perm (Listing.storeOrder plan.sort plan.options.direction)
    (plan.admitted table)).filter (plan.translation.chooses c policy)
  refine hperm.trans (.of_eq ?_)
  unfold admitted
  rw [List.filter_filter]
  exact List.filter_congr fun e _ => Bool.and_comm _ _

/-- **The rows of all pages are those that satisfy all clauses**; a strategy that sorts by a virtual field
leaves out those without a value of it. -/
theorem listed_perm (strategy : SortStrategy) : (plan.listed c policy strategy table).Perm
    (table.filter (plan.belongs c policy strategy)) := by
  have hchosen : ∀ sorted : Entity → Bool, ((plan.chosen c policy table).filter sorted).Perm
      (table.filter fun e =>
        plan.translation.admits e && plan.translation.chooses c policy e && sorted e) := by
    intro sorted
    refine (chosen_perm.filter sorted).trans (.of_eq ?_)
    rw [List.filter_filter]
    exact List.filter_congr fun e _ => Bool.and_comm _ _
  have hall : (plan.chosen c policy table).Perm (table.filter fun e =>
      plan.translation.admits e && plan.translation.chooses c policy e && true) := by
    simpa using chosen_perm
  unfold listed belongs isSorted
  cases hsort : plan.sort with
  | none =>
    simp only [Bool.or_true]
    exact hall
  | some key =>
    cases key with
    | column name =>
      simp only [Bool.or_true]
      exact hall
    | virtual field =>
      cases strategy with
      | memory => exact (Listing.orderOf_perm c policy field _ _).trans (hchosen _)
      | _ => exact hall

theorem chosen_subperm : (plan.chosen c policy table).Subperm (plan.admitted table) :=
  List.filter_sublist.subperm.trans (Store.arrange_perm _ _).subperm

theorem listed_subperm (strategy : SortStrategy) :
    (plan.listed c policy strategy table).Subperm table :=
  (listed_perm strategy).subperm.trans List.filter_sublist.subperm

theorem listed_subperm_admitted (strategy : SortStrategy) :
    (plan.listed c policy strategy table).Subperm (plan.admitted table) := by
  refine (listed_perm strategy).subperm.trans (List.Sublist.subperm ?_)
  refine List.monotone_filter_right table fun e he => ?_
  unfold belongs at he
  simp only [Bool.and_eq_true] at he
  exact he.1.1

/-- Without clauses on virtual fields the store finds what is chosen. -/
theorem chosen_eq (hnone : plan.translation.virtualClauses = []) :
    plan.chosen c policy table =
      Store.arrange (Listing.storeOrder plan.sort plan.options.direction) (plan.admitted table) := by
  refine List.filter_eq_self.2 fun e _ => ?_
  rw [Translation.chooses_eq, hnone]
  rfl

/-- Under a strategy that does not sort by a virtual field all rows that are chosen are listed. -/
theorem listed_of_ne {strategy : SortStrategy} (hne : strategy ≠ .memory) :
    plan.listed c policy strategy table = plan.chosen c policy table := by
  unfold listed
  split
  · exact absurd rfl hne
  · rfl

/-- Sorted by a virtual field, the rows are in its order. -/
theorem listed_memory {field : String} (hsort : plan.sort = some (.virtual field)) :
    plan.listed c policy .memory table =
      orderOf c policy field plan.options.direction (plan.chosen c policy table) := by
  unfold listed
  rw [hsort]

/-- Without clauses on virtual fields that is all that the store finds, in the order of the field. -/
theorem listed_sorted {field : String} (hsort : plan.sort = some (.virtual field))
    (hnone : plan.translation.virtualClauses = []) : plan.listed c policy .memory table =
      orderOf c policy field plan.options.direction (plan.admitted table) := by
  rw [listed_memory hsort, chosen_eq hnone, hsort]
  rfl

end ListingPlan

/-- A page is a window on the rows that its strategy lists, with values of their own. -/
structure Page.Lists (c : Catalog) (policy : FailurePolicy) (plan : ListingPlan) (table : List Entity)
    (page : Page) : Prop where
  total : page.total = (plan.listed c policy page.strategy table).length
  rows : page.rows.map (·.entity) = (((plan.listed c policy page.strategy table).drop
    plan.options.offset).take plan.options.perPage).map (Store.project plan.query)
  sound : Sound c policy page.rows

/-- What rows of some entities look like, one after the other. -/
def Shown (selection : Option Selection) (es : List Entity) (data : List Json) : Prop :=
  ∃ rows : List Row, data = rows.map (Row.render selection) ∧ rows.map (·.entity) = es

namespace Shown

variable {selection : Option Selection}

theorem nil : Shown selection [] [] := ⟨[], rfl, rfl⟩

theorem append {es es' : List Entity} {data data' : List Json} (h : Shown selection es data)
    (h' : Shown selection es' data') : Shown selection (es ++ es') (data ++ data') := by
  obtain ⟨rows, rfl, rfl⟩ := h
  obtain ⟨rows', rfl, rfl⟩ := h'
  exact ⟨rows ++ rows', List.map_append.symm, List.map_append⟩

theorem length_eq {es : List Entity} {data : List Json} (h : Shown selection es data) :
    data.length = es.length := by
  obtain ⟨rows, rfl, rfl⟩ := h
  simp

/-- Rows as they are shown tell their identities, where nothing stands in their place. -/
theorem ids {q : BaseQuery} {es : List Entity} {data : List Json}
    (h : Shown selection (es.map (Store.project q)) data) (hids : ∀ e ∈ es, e.KeepsId)
    (hselection : ∀ s, selection = some s → "id" ∉ s.virtualFields) :
    data.filterMap (fun row => row.field? "id") = es.map fun e => e.id.toJson := by
  obtain ⟨rows, rfl, hrows⟩ := h
  exact ids_render hrows hids hselection

end Shown

/-- A response shows the window on the rows that its strategy lists. -/
structure Response.Lists (c : Catalog) (policy : FailurePolicy) (plan : ListingPlan)
    (table : List Entity) (r : Response) : Prop where
  pagination : ∃ basePath p, r.pagination =
    Paginator.ofPage (plan.listed c policy r.sort.strategy table).length plan.options.page
      plan.options.perPage basePath p
  rows : Shown plan.selection ((((plan.listed c policy r.sort.strategy table).drop
    plan.options.offset).take plan.options.perPage).map (Store.project plan.query)) r.data

section Cut

variable {c : Catalog} {policy : FailurePolicy} {plan : ListingPlan} {table : List Entity}

/-- The page of rows that are all that is listed. -/
theorem lists_pageOf {rows : List Row} (strategy : SortStrategy)
    (h : rows.map (·.entity) =
      (plan.listed c policy strategy table).map (Store.project plan.query))
    (hsound : Sound c policy rows) :
    Page.Lists c policy plan table ⟨rows.length, pageOf plan.options rows, strategy⟩ where
  total := by
    have := congrArg List.length h
    simpa using this
  rows := by
    unfold pageOf
    rw [List.map_take, List.map_drop, h, List.map_take, List.map_drop]
  sound r hr := hsound r (Listing.mem_pageOf hr)

/-- Sorting rows keeps their values. -/
theorem Sound.sortRows {rows : List Row} (h : Sound c policy rows) (field : String)
    (direction : Direction) : Sound c policy (sortRows field direction rows) :=
  fun r hr => h r ((sortBy_perm _ _).mem_iff.1 hr)

end Cut

namespace Listing

variable {l : Listing σ Store} (hl : l.Recomputes) {tables : KeyMap (List Entity)}
  {asks : OrderAsk → Prop} {start : σ} {plan : ListingPlan} {table : List Entity}
  (hplan : plan.Finds l.engine.catalog tables table) {heeds : Bool}

include hl hplan

/-- A page that the store cuts out in its own order. -/
theorem databasePage_lists (hnone : plan.translation.virtualClauses = []) (strategy : SortStrategy)
    (hstrategy : strategy ≠ .memory) {s : ListingState σ Store} (htables : s.store.tables = tables)
    {page : Page}
    (h : (l.databasePage plan.query (storeOrder plan.sort plan.options.direction) plan.options strategy
      s).1 = .ok page) :
    page.Lists l.engine.catalog l.engine.settings.failurePolicy plan table := by
  rw [databasePage_eq hl.backend (hplan.matching htables)] at h
  cases h
  have hloaded := entities_loaded plan.query (Store.arrange
    (storeOrder plan.sort plan.options.direction) (plan.admitted table))
  rw [← @ListingPlan.chosen_eq l.engine.catalog l.engine.settings.failurePolicy plan table hnone,
    ← ListingPlan.listed_of_ne hstrategy] at hloaded
  have hlists := lists_pageOf strategy hloaded (sound_loaded _ _ _ _)
  rw [ListingPlan.listed_of_ne hstrategy, ListingPlan.chosen_eq hnone, List.length_map,
    Store.length_arrange] at hlists
  exact hlists

/-- Rows that satisfy all clauses are arranged as they are listed. -/
theorem arrangeFiltered_lists {rows : List Row}
    (hrows : rows.map (·.entity) = (plan.chosen l.engine.catalog l.engine.settings.failurePolicy
      table).map (Store.project plan.query))
    (hsound : Sound l.engine.catalog l.engine.settings.failurePolicy rows) {s : ListingState σ Store}
    {arranged : List Row} {strategy : SortStrategy}
    (h : (l.arrangeFiltered heeds plan.sort plan.options.direction rows s).1 =
      .ok (arranged, strategy)) :
    arranged.map (·.entity) = (plan.listed l.engine.catalog l.engine.settings.failurePolicy strategy
        table).map (Store.project plan.query) ∧
      Sound l.engine.catalog l.engine.settings.failurePolicy arranged := by
  cases hsort : plan.sort with
  | none =>
    rw [hsort] at h
    cases h
    rw [ListingPlan.listed_of_ne (by decide)]
    exact ⟨hrows, hsound⟩
  | some key =>
    cases key with
    | column name =>
      rw [hsort] at h
      cases h
      rw [ListingPlan.listed_of_ne (by decide)]
      exact ⟨hrows, hsound⟩
    | virtual field =>
      have hwants : plan.Wants field := .inr hsort
      obtain ⟨v, hv⟩ := Catalog.get?_of_mem_keys (hplan.sufficient.wanted field hwants)
      have hnodup : ((rows.map (·.entity)).map (·.id)).Nodup := by
        rw [hrows]
        exact nodup_project _ ListingPlan.chosen_subperm hplan.ids
      unfold arrangeFiltered at h
      rw [hsort] at h
      dsimp only at h
      rw [sortFiltered_eq] at h
      cases hrun : l.engine.fill heeds .drop field rows s.engine with
      | mk result engine =>
        rw [hrun] at h
        cases result with
        | ok filled =>
          cases h
          have hfilled := fill_drop_ok hl.lawful hl.inputs.isPure hl.engineCache hv
            (congrArg Prod.fst hrun) hnodup hsound
          rw [ListingPlan.listed_memory hsort]
          exact ⟨entities_sorted hl.lawful hl.inputs hplan.sufficient hwants hrows hfilled _,
            hfilled.sound.sortRows _ _⟩
        | error err =>
          dsimp only at h
          split at h
          · cases h
            rw [ListingPlan.listed_of_ne (by decide)]
            exact ⟨hrows, hsound⟩
          · cases h

/-- The rows that satisfy all clauses on virtual fields are those that are chosen. -/
theorem narrow_lists {s : EngineState σ} {kept : List Row}
    (h : (l.engine.narrow heeds plan.translation.virtualClauses
      ((Store.arrange (storeOrder plan.sort plan.options.direction) (plan.admitted table)).map fun e =>
        { entity := Store.project plan.query e }) s).1 = .ok kept) :
    kept.map (·.entity) = (plan.chosen l.engine.catalog l.engine.settings.failurePolicy table).map
        (Store.project plan.query) ∧
      Sound l.engine.catalog l.engine.settings.failurePolicy kept := by
  have hperm := Store.arrange_perm (storeOrder plan.sort plan.options.direction)
    (plan.admitted table)
  have hentities := entities_loaded plan.query (Store.arrange
    (storeOrder plan.sort plan.options.direction) (plan.admitted table))
  obtain ⟨hkept, hsound⟩ := narrow_ok hl.lawful hl.inputs.isPure hl.engineCache
    (fun cl hcl => hplan.sufficient.wanted _ (.inl ⟨cl, hcl, rfl⟩)) h
    (by rw [hentities]; exact nodup_project _ hperm.subperm hplan.ids) (sound_loaded _ _ _ _)
  rw [hentities, satisfies_loaded hl.lawful hl.inputs hplan.sufficient] at hkept
  exact ⟨hkept, hsound⟩

/-- A page of the rows that satisfy clauses on virtual fields. -/
theorem filteredPage_lists {s : ListingState σ Store} (htables : s.store.tables = tables) {page : Page}
    (h : (l.filteredPage heeds plan s).1 = .ok page) :
    page.Lists l.engine.catalog l.engine.settings.failurePolicy plan table := by
  rw [filteredPage_eq hl.backend (hplan.matching htables)] at h
  split at h
  · cases h
  have hnarrow := fun kept => @narrow_lists σ l hl tables plan table hplan heeds s.engine kept
  generalize l.engine.narrow heeds plan.translation.virtualClauses _ s.engine = run at h hnarrow
  generalize (l.fetchAll plan.query (storeOrder plan.sort plan.options.direction) s).2.store = store at h
  obtain ⟨result, engine⟩ := run
  cases result with
  | error err => cases h
  | ok kept =>
    obtain ⟨hkept, hsound⟩ := hnarrow kept rfl
    have harranged := fun arranged strategy => @arrangeFiltered_lists σ l hl tables plan table hplan
      heeds kept hkept hsound ⟨engine, store⟩ arranged strategy
    dsimp only at h
    generalize l.arrangeFiltered heeds plan.sort plan.options.direction kept ⟨engine, store⟩ = last
      at h harranged
    obtain ⟨result, s₁⟩ := last
    cases result with
    | error e => cases h
    | ok arranged =>
      cases h
      obtain ⟨hrows, hvalues⟩ := harranged arranged.1 arranged.2 rfl
      exact lists_pageOf arranged.2 hrows hvalues

section Sorted

variable {field : String} (hsort : plan.sort = some (.virtual field))
  (hnone : plan.translation.virtualClauses = [])

include hsort hnone

/-- A page of all rows sorted by a virtual field. -/
theorem sortedPage_lists {s : ListingState σ Store} (htables : s.store.tables = tables) {key : String}
    {page : Page} (h : (l.sortedPage heeds plan.query field plan.options key s).1 = .ok page) :
    page.Lists l.engine.catalog l.engine.settings.failurePolicy plan table := by
  have hwants : plan.Wants field := .inr hsort
  obtain ⟨v, hv⟩ := Catalog.get?_of_mem_keys (hplan.sufficient.wanted field hwants)
  rw [sortedPage_fst heeds hl.backend (hplan.matching htables)] at h
  cases hfill : (l.engine.fill heeds .drop field
      (((plan.admitted table).map (Store.project plan.query)).map fun e => { entity := e })
        s.engine).1 with
  | error err =>
    rw [hfill] at h
    cases h
  | ok filled =>
    rw [hfill] at h
    cases h
    obtain ⟨hfilled, -, -⟩ := Engine.fill_loaded hl.lawful hl.inputs.isPure hl.engineCache hv hfill
      (by rw [ids_project]; exact hplan.ids)
    refine lists_pageOf .memory ?_ (hfilled.sound.sortRows _ _)
    rw [ListingPlan.listed_sorted hsort hnone]
    exact entities_sorted hl.lawful hl.inputs hplan.sufficient hwants (entities_loaded_id _) hfilled _

/-- A page of an order that has been cached. -/
theorem cachedPage_lists {s : ListingState σ Store} (htables : s.store.tables = tables)
    {rows : List Entity} {ids : List EntityId}
    (horders : l.Orders tables ⟨plan.query, field, plan.options.direction⟩ rows ids) {page : Page}
    (h : (l.cachedPage plan.query plan.options ids s).1 = .ok page) :
    page.Lists l.engine.catalog l.engine.settings.failurePolicy plan table := by
  obtain rfl : plan.admitted table = rows := Except.ok.inj (hplan.found.symm.trans horders.found)
  have hids := horders.ids
  dsimp only at hids
  rw [← ListingPlan.listed_sorted hsort hnone] at hids
  have hlisted : (((plan.listed l.engine.catalog l.engine.settings.failurePolicy .memory table).drop
      plan.options.offset).take plan.options.perPage) ⊆ plan.admitted table := by
    have hslice := (List.take_sublist plan.options.perPage _).trans (List.drop_sublist
      plan.options.offset (plan.listed l.engine.catalog l.engine.settings.failurePolicy .memory table))
    rw [ListingPlan.listed_sorted hsort hnone] at hslice ⊢
    exact (hslice.subperm.trans ((orderOf_perm _ _ _ _ _).subperm.trans
      List.filter_sublist.subperm)).subset
  rw [cachedPage_eq hl.backend (hplan.matching htables)] at h
  cases h
  subst hids
  rw [← List.map_drop, ← List.map_take, filterMap_rowOf? hplan.ids hlisted]
  exact ⟨List.length_map _, entities_loaded _ _, sound_loaded _ _ _ _⟩

/-- A page sorted by a virtual field, from a cached order if there is one. -/
theorem memorySortedPage_lists (htrusted : l.Trusted asks start)
    (hask : asks ⟨plan.query, field, plan.options.direction⟩) {s : ListingState σ Store}
    (htables : s.store.tables = tables) (hholds : l.Holds tables asks start s.engine) {page : Page}
    (h : (l.memorySortedPage heeds plan.query field plan.options s).1 = .ok page) :
    page.Lists l.engine.catalog l.engine.settings.failurePolicy plan table := by
  have hstore := l.cachedOrder_store (l.orderKey plan.query field plan.options.direction) s
  have hfound := fun ids => @cachedOrder_orders σ l tables asks start s htrusted hholds _ hask ids
  unfold memorySortedPage at h
  dsimp only at h hfound
  generalize l.cachedOrder (l.orderKey plan.query field plan.options.direction) s = looked
    at hstore hfound h
  obtain ⟨found, s₁⟩ := looked
  have htables₁ : s₁.store.tables = tables := (congrArg Store.tables hstore).trans htables
  cases found with
  | some ids =>
    obtain ⟨rows, horders⟩ := hfound ids rfl
    exact cachedPage_lists hl hplan hsort hnone htables₁ horders h
  | none => exact sortedPage_lists hl hplan hsort hnone htables₁ h

/-- A page sorted by a virtual field, or in the order of the store. -/
theorem virtualSortedPage_lists (htrusted : l.Trusted asks start)
    (hask : asks ⟨plan.query, field, plan.options.direction⟩) {s : ListingState σ Store}
    (htables : s.store.tables = tables) (hholds : l.Holds tables asks start s.engine) {page : Page}
    (h : (l.virtualSortedPage heeds plan.query field plan.options s).1 = .ok page) :
    page.Lists l.engine.catalog l.engine.settings.failurePolicy plan table := by
  have hmemory := fun page => @memorySortedPage_lists σ l hl tables asks start plan table hplan heeds
    field hsort hnone htrusted hask s htables hholds page
  have hkept := (memorySortedPage_keeps heeds hl.backend (hplan.matching htables) hnone field).tables
  have hfallback : ∀ (s : ListingState σ Store), s.store.tables = tables → ∀ page,
      (l.databasePage plan.query none plan.options .fallback s).1 = .ok page →
        page.Lists l.engine.catalog l.engine.settings.failurePolicy plan table := by
    intro s htables page h
    refine databasePage_lists hl hplan hnone .fallback (by decide) htables ?_
    rw [hsort]
    exact h
  rw [virtualSortedPage_eq hl.backend (hplan.matching htables)] at h
  split at h
  · split at h
    · exact hfallback s htables page h
    · cases h
  · generalize l.memorySortedPage heeds plan.query field plan.options s = run at h hmemory hkept
    obtain ⟨result, s₁⟩ := run
    cases result with
    | ok page =>
      cases h
      exact hmemory page rfl
    | error e =>
      dsimp only at h
      split at h
      · exact hfallback s₁ (hkept.trans htables) page h
      · cases h

end Sorted

/-- **A page that succeeds is the window on the rows that its strategy lists.** -/
theorem page_lists (htrusted : l.Trusted asks start)
    (hasks : ∀ field, plan.sort = some (.virtual field) →
      asks ⟨plan.query, field, plan.options.direction⟩) {s : ListingState σ Store}
    (htables : s.store.tables = tables) (hholds : l.Holds tables asks start s.engine) {page : Page}
    (h : (l.page heeds plan s).1 = .ok page) :
    page.Lists l.engine.catalog l.engine.settings.failurePolicy plan table := by
  unfold Listing.page at h
  split at h
  · exact filteredPage_lists hl hplan htables h
  · rename_i hfilters
    have hnone : plan.translation.virtualClauses = [] := by
      unfold Translation.hasVirtualFilters at hfilters
      simpa using hfilters
    cases hsort : plan.sort with
    | none =>
      rw [hsort] at h
      refine databasePage_lists hl hplan hnone .none (by decide) htables ?_
      rw [hsort]
      exact h
    | some key =>
      cases key with
      | column name =>
        rw [hsort] at h
        refine databasePage_lists hl hplan hnone .database (by decide) htables ?_
        rw [hsort]
        exact h
      | virtual field =>
        rw [hsort] at h
        exact virtualSortedPage_lists hl hplan hsort hnone htrusted (hasks field hsort) htables hholds h

/-- **The rows of a response are the window on the rows that its strategy lists.** -/
theorem execute_lists (htrusted : l.Trusted asks start)
    (hasks : ∀ field, plan.sort = some (.virtual field) →
      asks ⟨plan.query, field, plan.options.direction⟩) {entityType : String} {p : Params}
    (hrequest : l.engine.catalog.planRequest l.settings entityType p = .ok plan)
    {s : ListingState σ Store} (htables : s.store.tables = tables)
    (hholds : l.Holds tables asks start s.engine) {r : Response}
    (h : (l.execute heeds entityType p s).1 = .ok r) :
    r.Lists l.engine.catalog l.engine.settings.failurePolicy plan table := by
  obtain ⟨page, s₁, rows, hrun, hfill, rfl⟩ := (execute_ok_iff hrequest).1 h
  have hpage : Page.Lists l.engine.catalog l.engine.settings.failurePolicy plan table page :=
    page_lists hl hplan htrusted hasks htables hholds (congrArg Prod.fst hrun)
  refine ⟨⟨l.settings.pagination.basePath, p, ?_⟩, rows, rfl,
    (fillAll_useDefault_ok heeds hfill).trans hpage.rows⟩
  show Paginator.ofPage page.total _ _ _ _ = _
  rw [hpage.total]
  rfl

end Listing

end FieldQuery
