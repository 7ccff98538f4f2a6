import FieldQuery.Proofs.Listing.Listed
import FieldQuery.Proofs.Listing.Selected

/-!
# Requests that nothing stops

No batch ends at a failure, failures count for the default, budgets cover all the work, and there are not
too many rows. Then a request succeeds, its page is in the order that has been asked for, and all that it
shows are own values.

* `ListingPlan.Unhindered` — budgets and the number of rows do not matter;
* `Listing.Completes` — a step ends well, with a page under a strategy;
* `Row.Presents` — a row of the table as it is shown, with its own values of the selected fields.

Principal results: `entityWork_sameFor` — entities that have the plan of a field in common make the same
work, `page_completes` and `execute_completes` — a request that nothing stops shows the rows that are
listed.
-/

namespace FieldQuery

open Engine Meaning

variable {σ : Type}

/-! ## Work -/

theorem Work.total_congr {α : Type} {work work' : α → Work} {as : List α}
    (h : ∀ a ∈ as, work a = work' a) : Work.total work as = Work.total work' as := by
  induction as with
  | nil => rfl
  | cons a as ih =>
    obtain ⟨hfirst, hrest⟩ := List.forall_mem_cons.1 h
    rw [Work.total, Work.total, hfirst, ih hrest]

theorem Work.total_map {α β : Type} (work : β → Work) (f : α → β) (as : List α) :
    Work.total work (as.map f) = Work.total (fun a => work (f a)) as := by
  induction as with
  | nil => rfl
  | cons a as ih => rw [List.map_cons, Work.total, Work.total, ih]

/-- **Entities that have in common what a field needs make the same work.** -/
theorem entityWork_sameFor {c : Catalog} (hc : c.Lawful) (hofInputs : c.IsOfInputs)
    {policy : FailurePolicy} {v : VirtualField} (hv : KeyMap.get? v.name c.virtualFields = some v)
    {e e' : Entity} (h : SameFor (c.plan v.name) e e') :
    entityWork c policy v e = entityWork c policy v e' := by
  have hkey := Catalog.mem_keys_of_get? hv
  refine Work.total_congr fun n hn => ?_
  obtain ⟨w, hw⟩ := Catalog.get?_of_mem_keys (hc.mem_keys_of_order hkey hn)
  obtain rfl := hc.name_of_get? hw
  have hinputs : inputs c policy e (value c policy e) w = inputs c policy e' (value c policy e') w := by
    refine inputs_sameFor hw (h.mono (Catalog.ownPlan_below_plan hn)) fun d hd u hu => ?_
    obtain rfl := hc.name_of_get? hu
    have hneeds : c.Needs w.name u.name := ⟨w, hw, hd, Catalog.mem_keys_of_get? hu⟩
    have hreach := ((hc.computationOrder_spec hkey).2.2 _).1 hn
    have horder := ((hc.computationOrder_spec hkey).2.2 _).2 (hreach.tail hneeds)
    exact value_sameFor hc hofInputs hu (h.mono (Catalog.plan_below_plan hc hkey horder))
  unfold nameWork fieldWork
  rw [hw]
  dsimp only
  rw [hinputs]
  cases inputs c policy e' (value c policy e') w with
  | error err => rfl
  | ok i =>
    dsimp only
    unfold outcomeWork VirtualField.accept
    rw [(hofInputs _ (KeyMap.mem_of_get? hw)).ref e e' i h.ref, h.ref]

/-- A budget that covers the work on whole rows covers that on the rows as they are loaded. -/
theorem Ample.loaded {en : Engine σ} (hc : en.catalog.Lawful) (hofInputs : en.catalog.IsOfInputs)
    {field : String} {rows : List Entity} (h : Ample en (rows.map Entity.whole) field) {q : BaseQuery}
    (hsame : ∀ e, SameFor (en.catalog.plan field) (Store.project q e) e.whole) :
    Ample en (rows.map (Store.project q)) field := by
  intro v hv
  obtain rfl := hc.name_of_get? hv
  have hcovers := h v hv
  rw [Work.total_map] at hcovers ⊢
  rw [Work.total_congr fun e _ => entityWork_sameFor hc hofInputs hv (hsame e)]
  exact hcovers

/-- Budgets are enough for all fields of a plan on all rows that the store finds, of which there are not
too many to sort. -/
structure ListingPlan.Unhindered (l : Listing σ Store) (plan : ListingPlan) (table : List Entity) :
    Prop where
  count : (plan.admitted table).length ≤ l.settings.sort.maxSortRecords
  budgets : ∀ field, plan.Wants field ∨ field ∈ Listing.selectedFields plan →
    Ample l.engine ((plan.admitted table).map Entity.whole) field

/-! ## Own values -/

/-- Where failures count for the default, there is an own value. -/
theorem Meaning.own?_default {c : Catalog} {field : String}
    (hfield : field ∈ KeyMap.keys c.virtualFields) (e : Entity) :
    ∃ a, own? c .default field e = some a := by
  obtain ⟨v, hv⟩ := Catalog.get?_of_mem_keys hfield
  unfold own?
  rw [hv]
  dsimp only
  cases value c .default e v with
  | ok a => exact ⟨a, rfl⟩
  | error err => exact ⟨v.default, rfl⟩

section Filling

variable {en : Engine σ} (hc : en.catalog.Lawful) (hpure : en.catalog.IsPure)
  (hcache : en.cache = none) (habort : en.settings.abortBatchOnFailure = false)
  (hpolicy : en.settings.failurePolicy = .default) {heeds : Bool}

include hc hpure hcache habort hpolicy

/-- **The selected fields of a page have their own values**, and no row is lost. -/
theorem fillAll_own {fields : List String}
    (hfields : ∀ field ∈ fields, field ∈ KeyMap.keys en.catalog.virtualFields) {rows : List Row}
    {all : List Entity} (hids : ((rows.map (·.entity)).map (·.id)).Nodup)
    (hall : rows.map (·.entity) ⊆ all) (hample : ∀ field ∈ fields, Ample en all field)
    {s : EngineState σ} (hcancelled : (heeds && s.cancelled) = false)
    (hsound : Sound en.catalog .default rows) :
    ∃ filled, (en.fillAll heeds .useDefault fields rows s).1 = .ok filled ∧
      filled.map (·.entity) = rows.map (·.entity) ∧ Sound en.catalog .default filled ∧
      ∀ r ∈ filled, ∀ field ∈ fields, r.value? field = own? en.catalog .default field r.entity := by
  induction fields generalizing rows s with
  | nil => exact ⟨rows, rfl, rfl, hsound, fun _ _ _ h => nomatch h⟩
  | cons field fields ih =>
    obtain ⟨hfield, hfields⟩ := List.forall_mem_cons.1 hfields
    obtain ⟨hfirst, hample⟩ := List.forall_mem_cons.1 hample
    obtain ⟨v, hv⟩ := Catalog.get?_of_mem_keys hfield
    have hown := own?_default (c := en.catalog) hfield
    -- nothing is left out, so that rows are filled as if what is left out were dropped
    have hfill : Delivers True (en.fill heeds .useDefault field rows s).1
          (Filled en.catalog .default field rows) ∧
        (en.fill heeds .useDefault field rows s).2.cancelled = s.cancelled := by
      refine fill_delivers hc hpure hcache habort (by rw [hpolicy]; decide) hv hids hall
        (fun _ => hfirst) hcancelled (filled_self hsound) fun o ho => ?_
      rw [hpolicy] at ho
      have hsettle : rows.filterMap (Row.settle field .useDefault (en.defaultOf field) o) =
          rows.filterMap (Row.settle field .drop (en.defaultOf field) o) := by
        refine List.filterMap_congr fun r hr => ?_
        unfold Row.settle
        cases hhas : r.has field with
        | true => rfl
        | false =>
          obtain ⟨a, ha⟩ := hown r.entity
          rw [ho r hr hhas, ha]
      rw [hsettle]
      exact filled_settle hsound ho _
    unfold fillAll
    generalize en.fill heeds .useDefault field rows s = run at hfill ⊢
    obtain ⟨result, s₁⟩ := run
    obtain ⟨hdelivers, htoken⟩ := hfill
    obtain ⟨filled, rfl, hfilled⟩ := hdelivers.of_ample
    have hentities : filled.map (·.entity) = rows.map (·.entity) := by
      rw [hfilled.entities]
      refine List.filter_eq_self.2 fun e _ => ?_
      obtain ⟨a, ha⟩ := hown e
      rw [ha]
      rfl
    obtain ⟨filled', hrun, hentities', hsound', hvalues⟩ := ih hfields
      (by rw [hentities]; exact hids) (by rw [hentities]; exact hall) hample
      (by rw [htoken]; exact hcancelled) hfilled.sound
    refine ⟨filled', hrun, hentities'.trans hentities, hsound', fun r hr => ?_⟩
    refine List.forall_mem_cons.2 ⟨?_, hvalues r hr⟩
    obtain ⟨r₀, hr₀, hextends⟩ := fillAll_extends fields hrun r hr
    obtain ⟨a, ha⟩ := hown r₀.entity
    rw [hextends.entity, ha]
    exact hextends.values field a ((hfilled.has r₀ hr₀).trans ha)

end Filling

/-- A row of the table as it is shown, with its own values of the selected fields. -/
structure Row.Presents (c : Catalog) (plan : ListingPlan) (r : Row) (e : Entity) : Prop where
  entity : r.entity = Store.project plan.query e
  values : ∀ field ∈ Listing.selectedFields plan, r.value? field = own? c .default field e.whole

namespace Listing

/-- A step ends well, with a page under a strategy, and leaves the token as it is. -/
structure Completes (s : ListingState σ Store) (strategy : SortStrategy)
    (run : Except Error Page × ListingState σ Store) : Prop where
  page : ∃ found, run.1 = .ok found ∧ found.strategy = strategy
  token : run.2.engine.cancelled = s.engine.cancelled

section Pages

variable {l : Listing σ Store} (hl : l.Recomputes) {tables : KeyMap (List Entity)}
  {plan : ListingPlan} {table : List Entity} (hplan : plan.Finds l.engine.catalog tables table)
  (habort : l.engine.settings.abortBatchOnFailure = false)
  (hpolicy : l.engine.settings.failurePolicy ≠ .throw) (hfree : plan.Unhindered l table)
  {heeds : Bool} {s : ListingState σ Store} (hcancelled : (heeds && s.engine.cancelled) = false)

include hl hplan hfree in
/-- Budgets are enough for the rows as they are loaded. -/
theorem ample_loaded {field : String} (hwants : plan.Wants field) :
    Ample l.engine ((plan.admitted table).map (Store.project plan.query)) field :=
  (hfree.budgets field (.inl hwants)).loaded hl.lawful hl.inputs (hplan.sufficient.loaded field hwants)

include hl hplan habort hpolicy hfree hcancelled

/-- Rows that the store has found are filled with the field to sort by. -/
theorem fill_completes {field : String} (hsort : plan.sort = some (.virtual field)) {rows : List Row}
    {es : List Entity} (hes : es.Subperm (plan.admitted table))
    (hrows : rows.map (·.entity) = es.map (Store.project plan.query))
    (hsound : Sound l.engine.catalog l.engine.settings.failurePolicy rows) :
    ∃ filled engine, l.engine.fill heeds .drop field rows s.engine = (.ok filled, engine) ∧
      engine.cancelled = s.engine.cancelled := by
  have hwants : plan.Wants field := .inr hsort
  obtain ⟨v, hv⟩ := Catalog.get?_of_mem_keys (hplan.sufficient.wanted field hwants)
  have hids : ((rows.map (·.entity)).map (·.id)).Nodup := by
    rw [hrows]
    exact nodup_project _ hes hplan.ids
  have hall : rows.map (·.entity) ⊆ (plan.admitted table).map (Store.project plan.query) := by
    rw [hrows]
    exact List.map_subset _ hes.subset
  have hfill := fill_drop hl.lawful hl.inputs.isPure hl.engineCache habort hpolicy hv hids hall
    (fun _ : True => ample_loaded hl hplan hfree hwants) hcancelled hsound
  generalize l.engine.fill heeds .drop field rows s.engine = run at hfill ⊢
  obtain ⟨result, engine⟩ := run
  obtain ⟨filled, rfl, -⟩ := hfill.1.of_ample
  exact ⟨filled, engine, rfl, hfill.2⟩

/-- Rows that satisfy all clauses are brought into their order. -/
theorem arrangeFiltered_completes {rows : List Row} {es : List Entity}
    (hes : es.Subperm (plan.admitted table))
    (hrows : rows.map (·.entity) = es.map (Store.project plan.query))
    (hsound : Sound l.engine.catalog l.engine.settings.failurePolicy rows) :
    ∃ arranged s', l.arrangeFiltered heeds plan.sort plan.options.direction rows s =
        (.ok (arranged, plan.strategy), s') ∧ s'.engine.cancelled = s.engine.cancelled := by
  unfold arrangeFiltered ListingPlan.strategy
  cases hsort : plan.sort with
  | none => exact ⟨rows, s, rfl, rfl⟩
  | some key =>
    cases key with
    | column name => exact ⟨rows, s, rfl, rfl⟩
    | virtual field =>
      obtain ⟨filled, engine, hfill, htoken⟩ := fill_completes hl hplan habort hpolicy hfree hcancelled
        hsort hes hrows hsound
      dsimp only
      rw [sortFiltered_eq, hfill]
      exact ⟨_, _, rfl, htoken⟩

variable (htables : s.store.tables = tables)

include htables

/-- A page of the rows that satisfy clauses on virtual fields. -/
theorem filteredPage_completes : Completes s plan.strategy (l.filteredPage heeds plan s) := by
  have hperm := Store.arrange_perm (storeOrder plan.sort plan.options.direction) (plan.admitted table)
  have hclauses : ∀ cl ∈ plan.translation.virtualClauses, plan.Wants cl.field :=
    fun cl hcl => .inl ⟨cl, hcl, rfl⟩
  have hloaded := entities_loaded plan.query
    (Store.arrange (storeOrder plan.sort plan.options.direction) (plan.admitted table))
  have hnarrow := narrow_delivers hl.lawful hl.inputs.isPure hl.engineCache habort hpolicy
    (fun cl hcl => hplan.sufficient.wanted cl.field (hclauses cl hcl))
    (by rw [hloaded]; exact nodup_project _ hperm.subperm hplan.ids)
    (by rw [hloaded]; exact List.map_subset _ hperm.subset)
    (fun cl hcl (_ : True) => ample_loaded hl hplan hfree (hclauses cl hcl)) hcancelled
    (sound_loaded _ _ plan.query _)
  rw [hloaded, satisfies_loaded hl.lawful hl.inputs hplan.sufficient] at hnarrow
  rw [filteredPage_eq hl.backend (hplan.matching htables), if_neg (Nat.not_lt.2 hfree.count)]
  generalize (l.fetchAll plan.query (storeOrder plan.sort plan.options.direction) s).2.store = store
  generalize l.engine.narrow heeds plan.translation.virtualClauses _ s.engine = run at hnarrow ⊢
  obtain ⟨result, engine⟩ := run
  obtain ⟨hdelivers, htoken⟩ := hnarrow
  obtain ⟨kept, rfl, hkept, hsound⟩ := hdelivers.of_ample
  obtain ⟨arranged, s', harranged, htoken'⟩ := arrangeFiltered_completes hl hplan habort hpolicy hfree
    (s := ⟨engine, store⟩) (by rw [htoken]; exact hcancelled)
    (List.filter_sublist.subperm.trans hperm.subperm) hkept hsound
  dsimp only
  rw [harranged]
  exact ⟨⟨_, rfl, rfl⟩, htoken'.trans htoken⟩

/-- A page of all rows in the order of a virtual field, that is computed or has been cached. -/
theorem memorySortedPage_completes {field : String} (hsort : plan.sort = some (.virtual field)) :
    Completes s .memory (l.memorySortedPage heeds plan.query field plan.options s) := by
  have hstore := l.cachedOrder_store (l.orderKey plan.query field plan.options.direction) s
  have hlooked := (@cachedOrder_tidies σ l tables (fun _ => True) s.engine.cache s
    (l.orderKey plan.query field plan.options.direction)).token
  unfold memorySortedPage
  dsimp only
  generalize l.cachedOrder _ s = looked at hstore hlooked ⊢
  obtain ⟨found, s₁⟩ := looked
  have htables₁ : s₁.store.tables = tables := (congrArg Store.tables hstore).trans htables
  cases found with
  | some ids =>
    dsimp only
    rw [cachedPage_eq hl.backend (hplan.matching htables₁)]
    exact ⟨⟨_, rfl, rfl⟩, hlooked⟩
  | none =>
    obtain ⟨filled, engine, hfill, htoken⟩ := fill_completes hl hplan habort hpolicy hfree (s := s₁)
      (by rw [hlooked]; exact hcancelled) hsort (List.Subperm.refl _) (entities_loaded plan.query _)
      (sound_loaded _ _ _ _)
    dsimp only
    rw [sortedPage_eq hl.backend (hplan.matching htables₁), hfill]
    refine ⟨⟨_, rfl, rfl⟩, ?_⟩
    show (l.cacheOrder _ _ _).engine.cancelled = _
    unfold cacheOrder
    split
    · exact htoken.trans hlooked
    · exact htoken.trans hlooked

/-- **A page that nothing stops is in the order that has been asked for.** -/
theorem page_completes : Completes s plan.strategy (l.page heeds plan s) := by
  unfold page
  split
  · exact filteredPage_completes hl hplan habort hpolicy hfree hcancelled htables
  · have hdatabase : ∀ order strategy,
        Completes s strategy (l.databasePage plan.query order plan.options strategy s) := by
      intro order strategy
      rw [databasePage_eq hl.backend (hplan.matching htables)]
      exact ⟨⟨_, rfl, rfl⟩, rfl⟩
    unfold ListingPlan.strategy
    cases hsort : plan.sort with
    | none => exact hdatabase _ _
    | some key =>
      cases key with
      | column name => exact hdatabase _ _
      | virtual field =>
        have hmemory := memorySortedPage_completes hl hplan habort hpolicy hfree hcancelled htables hsort
        dsimp only
        rw [virtualSortedPage_eq hl.backend (hplan.matching htables), if_neg (Nat.not_lt.2 hfree.count)]
        generalize l.memorySortedPage heeds plan.query field plan.options s = run at hmemory ⊢
        obtain ⟨result, s₁⟩ := run
        obtain ⟨⟨found, rfl, hstrategy⟩, htoken⟩ := hmemory
        exact ⟨⟨found, rfl, hstrategy⟩, htoken⟩

end Pages

/-- **A request that nothing stops shows the rows that are listed**, with their own values. -/
theorem execute_completes {l : Listing σ Store} (hl : l.Recomputes) {tables : KeyMap (List Entity)}
    {asks : OrderAsk → Prop} {start : σ} (htrusted : l.Trusted asks start) {plan : ListingPlan}
    {table : List Entity} (hplan : plan.Finds l.engine.catalog tables table)
    (hasks : ∀ field, plan.sort = some (.virtual field) →
      asks ⟨plan.query, field, plan.options.direction⟩)
    (habort : l.engine.settings.abortBatchOnFailure = false)
    (hpolicy : l.engine.settings.failurePolicy = .default) (hfree : plan.Unhindered l table)
    {entityType : String} {p : Params}
    (hrequest : l.engine.catalog.planRequest l.settings entityType p = .ok plan)
    {s : ListingState σ Store} (htables : s.store.tables = tables)
    (hholds : l.Holds tables asks start s.engine) {heeds : Bool}
    (hcancelled : (heeds && s.engine.cancelled) = false) :
    ∃ r rows, (l.execute heeds entityType p s).1 = .ok r ∧ r.sort.strategy = plan.strategy ∧
      r.pagination.total = (plan.listed l.engine.catalog .default plan.strategy table).length ∧
      r.data = rows.map (Row.render plan.selection) ∧
      List.Forall₂ (Row.Presents l.engine.catalog plan) rows
        (((plan.listed l.engine.catalog .default plan.strategy table).drop plan.options.offset).take
          plan.options.perPage) := by
  obtain ⟨⟨found, hok, hstrategy⟩, htoken⟩ := page_completes hl hplan habort (by rw [hpolicy]; decide)
    hfree hcancelled htables
  obtain ⟨htotal, hrows, hsound⟩ := page_lists hl hplan htrusted hasks htables hholds hok
  rw [hstrategy, hpolicy] at htotal hrows
  rw [hpolicy] at hsound
  have hwindow : (((plan.listed l.engine.catalog .default plan.strategy table).drop
      plan.options.offset).take plan.options.perPage).Subperm (plan.admitted table) :=
    ((List.take_sublist _ _).trans (List.drop_sublist _ _)).subperm.trans
      (ListingPlan.listed_subperm_admitted _)
  generalize ((plan.listed l.engine.catalog .default plan.strategy table).drop
    plan.options.offset).take plan.options.perPage = window at hrows hwindow ⊢
  have hsame := fun field (hfield : field ∈ selectedFields plan) =>
    sameFor_selectedFields hrequest hfield
  obtain ⟨rows, hfill, hentities, -, hvalues⟩ := fillAll_own hl.lawful hl.inputs.isPure hl.engineCache
    habort hpolicy hplan.sufficient.selected
    (by rw [hrows]; exact nodup_project _ hwindow hplan.ids)
    (by rw [hrows]; exact List.map_subset (Store.project plan.query) hwindow.subset)
    (fun field hfield => (hfree.budgets field (.inr hfield)).loaded hl.lawful hl.inputs
      (hsame field hfield))
    (s := (l.page heeds plan s).2.engine) (by rw [htoken]; exact hcancelled) hsound
  refine ⟨_, rows, (execute_ok_iff hrequest).2 ⟨found, _, rows, Prod.ext hok rfl, hfill, rfl⟩, hstrategy,
    htotal, rfl, ?_⟩
  have hpairs : List.Forall₂ (fun r e => Row.entity r = Store.project plan.query e) rows window := by
    have h : List.Forall₂ (· = ·) (rows.map Row.entity) (window.map (Store.project plan.query)) := by
      rw [List.forall₂_eq_eq_eq]
      exact hentities.trans hrows
    exact List.forall₂_map_right_iff.1 (List.forall₂_map_left_iff.1 h)
  refine ((List.forall₂_and_left rows window).2 ⟨hvalues, hpairs⟩).imp fun r e ⟨hvalues, hentity⟩ => ⟨hentity, ?_⟩
  intro field hfield
  rw [hvalues field hfield, hentity]
  exact own?_sameFor hl.lawful hl.inputs (hsame field hfield e)

end Listing

end FieldQuery
