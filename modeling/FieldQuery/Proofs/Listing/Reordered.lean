import FieldQuery.Proofs.Listing.Commuting
import FieldQuery.Proofs.Listing.Fallback
import FieldQuery.Proofs.Listing.Transparent
import FieldQuery.Proofs.Request.Collected

/-!
# Requests with their filters in another order

The order of the filters of a request decides in which order clauses are evaluated, and which rows each of
them gets to see.  It does not decide which rows are found.

* `Params.Reorders` — two requests with the same filters in different orders;
* `Translation.Reorders`, `ListingPlan.Reorders` — what the two come down to;
* `Listing.Lenient` — a listing without caches in which no failure ends a request;
* `Engine.Together`, `Listing.Together` — two steps with one result, after which no token is heard;
* `Response.Reorders`, `Answer.Reorders` — responses that differ in the order of what they say about the
  filters, and in their links; errors that differ in the order of what has been refused.

Principal results: `planRequest_reorders` — the two requests load the same of the same rows,
`page_together` — every way to a page leads both to one page, and `execute_reorders`.
-/

namespace FieldQuery

open Meaning

variable {σ : Type}

/-! ## Requests -/

/-- Two requests with the same filters in different orders. -/
structure Params.Reorders (p p' : Params) : Prop where
  filters : p'.filters.Perm p.filters
  options : ∀ name ∈ reservedNames, p'.get? name = p.get? name

/-- Where each name stands once, look-ups do not see the order. -/
theorem lookup_perm {α : Type} {ps ps' : List (String × α)} (h : ps'.Perm ps)
    (hnodup : (ps.map (·.1)).Nodup) (name : String) : List.lookup name ps' = List.lookup name ps := by
  induction h with
  | nil => rfl
  | cons p _ ih =>
    rw [List.lookup_cons, List.lookup_cons, ih (List.nodup_cons.1 hnodup).2]
  | swap p q ps =>
    obtain ⟨j, v⟩ := p
    obtain ⟨k, w⟩ := q
    have hne : j ≠ k := fun heq => by simp [heq] at hnodup
    simp only [List.lookup_cons]
    by_cases hj : name = j
    · have hk : (name == k) = false := by simpa [hj] using hne
      rw [hk]
    · have hj : (name == j) = false := by simpa using hj
      rw [hj]
  | trans _ hlast hfirst' hlast' =>
    have hmiddle := (hlast.map (·.1)).nodup_iff.2 hnodup
    rw [hfirst' hmiddle, hlast' hnodup]

/-- A request in any order, if it has each name once. -/
theorem Params.reorders_of_perm {p p' : Params} (h : p'.pairs.Perm p.pairs)
    (hnodup : (p.pairs.map (·.1)).Nodup) : p.Reorders p' where
  filters := h.filter _
  options name _ := lookup_perm h hnodup name

/-! ## Translations -/

namespace LoadPlan

/-- **Plans come to one plan in every order in which they are merged.** -/
theorem foldl_merge_perm {α : Type} (plan : α → LoadPlan) {as bs : List α} (h : as.Perm bs) :
    as.foldl (fun p a => p.merge (plan a)) ({} : LoadPlan) =
      bs.foldl (fun p a => p.merge (plan a)) {} := by
  rw [foldl_merge, foldl_merge, Names.foldl_union_perm (fun a => (plan a).columns) h,
    Names.foldl_union_perm (fun a => (plan a).relations) h]

end LoadPlan

/-- Two translations with the same clauses and the same faults in different orders. -/
structure Translation.Reorders (t t' : Translation) : Prop where
  active : t'.active.Perm t.active
  rejected : t'.rejected.Perm t.rejected
  search : t'.search = t.search
  eager : t'.eager = t.eager

namespace Translation.Reorders

variable {t t' : Translation} (h : t.Reorders t')

include h

theorem virtualClauses : t'.virtualClauses.Perm t.virtualClauses := h.active.filter _

theorem hasVirtualFilters : t'.hasVirtualFilters = t.hasVirtualFilters := by
  unfold Translation.hasVirtualFilters
  rw [h.virtualClauses.isEmpty_eq]

/-- Both admit the same rows. -/
theorem admits : t'.admits = t.admits := by
  funext e
  unfold Translation.admits
  rw [h.active.all_eq, h.search]

theorem missing (c : Catalog) :
    FilterSettings.missing c t'.active = FilterSettings.missing c t.active := by
  unfold FilterSettings.missing
  congr 1
  refine List.filter_congr fun name _ => ?_
  rw [(h.active.map Clause.field).contains_eq]

end Translation.Reorders

/-- Errors that differ at most in the order of what has been refused. -/
inductive FilterError.Reorders : FilterError → FilterError → Prop
  | same (e : FilterError) : Reorders e e
  | rejected {vs vs' : List Violation} (h : vs'.Perm vs) : Reorders (.rejected vs) (.rejected vs')

namespace FilterSettings

variable {s : FilterSettings} {c : Catalog} {p p' : Params} (h : p.Reorders p')

include h

/-- What is collected from the filters does not depend on their order. -/
theorem collect_reorders : (s.collect c p).Reorders (s.collect c p') := by
  have hactive : (s.collect c p').active.Perm (s.collect c p).active := by
    rw [active_collect, active_collect]
    exact h.filters.filterMap _
  refine ⟨hactive, ?_, ?_, ?_⟩
  · rw [rejected_collect, rejected_collect]
    exact h.filters.filterMap _
  · rw [search_collect, search_collect, h.options "search" (by decide)]
  · rw [eager_collect, eager_collect]
    exact LoadPlan.foldl_merge_perm (fun cl : Clause => c.plan cl.field) (hactive.filter _)

/-- **Filters in different orders are translated alike**, or refused alike. -/
theorem translate_reorders :
    (∃ t t', s.translate c p = .ok t ∧ s.translate c p' = .ok t' ∧ t.Reorders t') ∨
      ∃ e e', s.translate c p = .error e ∧ s.translate c p' = .error e' ∧ e.Reorders e' := by
  have hcollect := collect_reorders (s := s) (c := c) h
  unfold translate
  generalize s.collect c p = t at hcollect ⊢
  generalize s.collect c p' = t' at hcollect ⊢
  dsimp only
  rw [hcollect.missing c]
  have hnil : t'.rejected = [] ↔ t.rejected = [] := by
    rw [← List.length_eq_zero_iff, ← List.length_eq_zero_iff, hcollect.rejected.length_eq]
  by_cases hwrong : s.strict = true ∧ t.rejected ≠ []
  · have hwrong' : s.strict = true ∧ t'.rejected ≠ [] := ⟨hwrong.1, fun hnone => hwrong.2 (hnil.1 hnone)⟩
    rw [if_pos hwrong, if_pos hwrong']
    exact .inr ⟨_, _, rfl, rfl, .rejected ((hcollect.rejected.append_right _).map _)⟩
  · have hright : ¬ (s.strict = true ∧ t'.rejected ≠ []) := fun hwrong' =>
      hwrong ⟨hwrong'.1, fun hnone => hwrong'.2 (hnil.2 hnone)⟩
    rw [if_neg hwrong, if_neg hright]
    split
    · exact .inl ⟨t, t', rfl, rfl, hcollect⟩
    · exact .inr ⟨_, _, rfl, rfl, .same _⟩
    · exact .inr ⟨_, _, rfl, rfl, .same _⟩

end FilterSettings

/-! ## Plans -/

/-- Two plans that load the same of the same rows, with the same clauses in different orders. -/
structure ListingPlan.Reorders (plan plan' : ListingPlan) : Prop where
  translation : plan.translation.Reorders plan'.translation
  options : plan'.options = plan.options
  selection : plan'.selection = plan.selection
  sort : plan'.sort = plan.sort
  entityType : plan'.query.entityType = plan.query.entityType
  project : Store.project plan'.query = Store.project plan.query
  warnings : plan'.warnings.Perm plan.warnings

/-- Options do not depend on the filters. -/
theorem Params.Reorders.options_eq {p p' : Params} (h : p.Reorders p') (pages : PageSettings) :
    Options.ofParams p' pages = Options.ofParams p pages := by
  unfold Options.ofParams
  rw [h.options "page" (by decide), h.options "per_page" (by decide), h.options "sort_by" (by decide),
    h.options "sort_direction" (by decide), h.options "fields" (by decide),
    h.options "search" (by decide)]

/-- **Requests with their filters in different orders load the same of the same rows**, or both are
refused. -/
theorem Catalog.planRequest_reorders {c : Catalog} {s : Settings} {p p' : Params} (h : p.Reorders p')
    (entityType : String) :
    (∃ plan plan', c.planRequest s entityType p = .ok plan ∧
        c.planRequest s entityType p' = .ok plan' ∧ plan.Reorders plan') ∨
      ∃ e e', c.planRequest s entityType p = .error e ∧ c.planRequest s entityType p' = .error e' ∧
        e.Reorders e' := by
  unfold planRequest
  rw [h.options_eq]
  rcases FilterSettings.translate_reorders (s := s.filter) (c := c) h with
    ⟨t, t', ht, ht', hsame⟩ | ⟨e, e', he, he', hsame⟩
  · rw [ht, ht']
    dsimp only
    cases s.filter.tolerate (c.selectionOf (Options.ofParams p s.pagination)).2 with
    | error e => exact .inr ⟨e, e, rfl, rfl, .same e⟩
    | ok ws =>
      dsimp only
      cases s.filter.tolerate (c.sortKeyOf (Options.ofParams p s.pagination)).2 with
      | error e => exact .inr ⟨e, e, rfl, rfl, .same e⟩
      | ok vs =>
        refine .inl ⟨_, _, rfl, rfl, ?_⟩
        refine { translation := hsame, options := rfl, selection := rfl, sort := rfl, entityType := rfl,
                 project := ?_, warnings := ?_ }
        · unfold queryOf loadPlan
          dsimp only
          rw [hsame.eager]
          rfl
        · exact ((hsame.rejected.map _).append_right _).append_right _
  · rw [he, he']
    exact .inr ⟨e, e', rfl, rfl, hsame⟩

/-! ## Pages -/

/-- Two steps with one result, after which both states are of a kind. -/
structure Together {α τ : Type} (kind : τ → Prop) (run run' : α × τ) : Prop where
  result : run.1 = run'.1
  state : kind run.2
  state' : kind run'.2

/-- Such steps can be followed side by side. -/
theorem Together.split {α τ : Type} {kind : τ → Prop} {run run' : α × τ} (h : Together kind run run') :
    ∃ a t t', run = (a, t) ∧ run' = (a, t') ∧ kind t ∧ kind t' :=
  ⟨run.1, run.2, run'.2, rfl, Prod.ext h.result.symm rfl, h.state, h.state'⟩

namespace Engine

/-- Two steps of an engine with one result, after which no token is heard. -/
abbrev Together {α : Type} (heeds : Bool) (run run' : α × EngineState σ) : Prop :=
  FieldQuery.Together (fun s => (heeds && s.cancelled) = false) run run'

variable {en : Engine σ} (hc : en.catalog.Lawful) (hpure : en.catalog.IsPure)
  (hcache : en.cache = none) {heeds : Bool}

include hc hpure hcache

/-- Rows are filled with the same values whenever no token is heard. -/
theorem fill_together (excluded : Excluded) (field : String) (rows : List Row) {s s' : EngineState σ}
    (htoken : (heeds && s.cancelled) = false) (htoken' : (heeds && s'.cancelled) = false) :
    Together heeds (en.fill heeds excluded field rows s) (en.fill heeds excluded field rows s') where
  result := by
    rw [fill_eq, fill_eq]
    split
    · rfl
    · dsimp only
      rw [computeBatch_even hc hpure hcache field _ htoken htoken']
  state := by rw [(fill_rests hc hpure hcache heeds excluded field rows s).cancelled, htoken]
  state' := by rw [(fill_rests hc hpure hcache heeds excluded field rows s').cancelled, htoken']

/-- So they are with several fields. -/
theorem fillAll_together (excluded : Excluded) (fields : List String) :
    ∀ (rows : List Row) {s s' : EngineState σ}, (heeds && s.cancelled) = false →
      (heeds && s'.cancelled) = false → Together heeds (en.fillAll heeds excluded fields rows s)
        (en.fillAll heeds excluded fields rows s') := by
  induction fields with
  | nil => exact fun rows s s' htoken htoken' => ⟨rfl, htoken, htoken'⟩
  | cons field fields ih =>
    intro rows s s' htoken htoken'
    obtain ⟨result, s₁, s₁', hrun, hrun', htoken, htoken'⟩ :=
      (fill_together hc hpure hcache excluded field rows htoken htoken').split
    unfold fillAll
    rw [hrun, hrun']
    cases result with
    | error err => exact ⟨rfl, htoken, htoken'⟩
    | ok filled => exact ih filled htoken htoken'

/-- The same rows satisfy clauses in different orders, and come with the same values. -/
theorem narrow_together (habort : en.settings.abortBatchOnFailure = false)
    (hpolicy : en.settings.failurePolicy ≠ .throw) {es : List Entity} (hids : (es.map (·.id)).Nodup)
    {clauses clauses' : List Clause} (hperm : clauses.Perm clauses')
    (hclauses : ∀ cl ∈ clauses, cl.field ∈ KeyMap.keys en.catalog.virtualFields)
    (hample : ∀ cl ∈ clauses, Ample en es cl.field) {s s' : EngineState σ}
    (htoken : (heeds && s.cancelled) = false) (htoken' : (heeds && s'.cancelled) = false) :
    Together heeds (en.narrow heeds clauses (es.map fun e => { entity := e }) s)
      (en.narrow heeds clauses' (es.map fun e => { entity := e }) s') where
  result := by
    obtain ⟨kept, hkept, hkept'⟩ := narrow_commutes hc hpure hcache habort hpolicy hids hperm hclauses
      hample htoken htoken'
    rw [hkept, hkept']
  state := by rw [(narrow_rests hc hpure hcache heeds clauses _ s).cancelled, htoken]
  state' := by rw [(narrow_rests hc hpure hcache heeds clauses' _ s').cancelled, htoken']

end Engine

namespace Listing

/-- A listing without caches, over tables in memory, with pure computations, in which no failure ends a
request. -/
structure Lenient (l : Listing σ Store) : Prop where
  pure : l.engine.catalog.IsPure
  backend : l.backend = Store.backend
  engineCache : l.engine.cache = none
  sortCache : l.sortCache = none
  abort : l.engine.settings.abortBatchOnFailure = false
  policy : l.engine.settings.failurePolicy ≠ .throw

/-- Two steps of listings with one result, after which no token is heard. -/
abbrev Together {α : Type} (heeds : Bool) (run run' : α × ListingState σ Store) : Prop :=
  FieldQuery.Together (fun s => (heeds && s.engine.cancelled) = false) run run'

section Pages

variable {l : Listing σ Store} (hc : l.engine.catalog.Lawful) (hl : l.Lenient) {heeds : Bool}
  {s s' : ListingState σ Store} (htoken : (heeds && s.engine.cancelled) = false)
  (htoken' : (heeds && s'.engine.cancelled) = false)

include hc hl htoken htoken' in
/-- Rows that satisfy the clauses are brought into one order. -/
theorem arrangeFiltered_together (sort : Option SortKey) (direction : Direction) (rows : List Row) :
    Together heeds (l.arrangeFiltered heeds sort direction rows s)
      (l.arrangeFiltered heeds sort direction rows s') := by
  unfold arrangeFiltered
  split
  · exact ⟨rfl, htoken, htoken'⟩
  · exact ⟨rfl, htoken, htoken'⟩
  · rename_i field
    obtain ⟨result, engine, engine', hrun, hrun', htoken, htoken'⟩ :=
      (Engine.fill_together hc hl.pure hl.engineCache .drop field rows htoken htoken').split
    rw [sortFiltered_eq, sortFiltered_eq, hrun, hrun']
    cases result <;> exact ⟨rfl, htoken, htoken'⟩

section Queries

variable {q q' : BaseQuery} (hproject : Store.project q' = Store.project q) {rows : List Entity}
  (hrows : s.store.matching q = .ok rows) (hrows' : s'.store.matching q' = .ok rows)

include hl hproject hrows hrows' htoken htoken'

/-- The store cuts out one page. -/
theorem databasePage_together (order : Option Order) (o : Options) (strategy : SortStrategy) :
    Together heeds (l.databasePage q order o strategy s) (l.databasePage q' order o strategy s') := by
  refine ⟨?_, ?_, ?_⟩
  · rw [databasePage_eq hl.backend hrows, databasePage_eq hl.backend hrows', hproject]
  · rw [databasePage_engine, htoken]
  · rw [databasePage_engine, htoken']

include hc

/-- All rows come in one order of a virtual field. -/
theorem memorySortedPage_together (field : String) (o : Options) :
    Together heeds (l.memorySortedPage heeds q field o s) (l.memorySortedPage heeds q' field o s') := by
  obtain ⟨result, engine, engine', hrun, hrun', htoken, htoken'⟩ :=
    (Engine.fill_together hc hl.pure hl.engineCache .drop field
      (rows.map fun e => { entity := Store.project q e }) htoken htoken').split
  unfold memorySortedPage cachedOrder
  rw [hl.sortCache]
  dsimp only
  rw [sortedPage_eq hl.backend hrows, sortedPage_eq hl.backend hrows', hproject, hrun, hrun']
  unfold cacheOrder
  rw [hl.sortCache]
  cases result <;> exact ⟨rfl, htoken, htoken'⟩

/-- They do so, or are left in the order of the store for both. -/
theorem virtualSortedPage_together {field : String}
    (hfield : field ∈ KeyMap.keys l.engine.catalog.virtualFields) (o : Options) :
    Together heeds (l.virtualSortedPage heeds q field o s) (l.virtualSortedPage heeds q' field o s') := by
  have hreads : l.backend.Reads := hl.backend ▸ Store.backend_reads
  -- the page that takes the place of a failed sort is cut out of the same tables
  have htables : (l.memorySortedPage heeds q field o s).2.store.tables = s.store.tables :=
    (memorySortedPage_leaves hc hreads hfield hrows).tables
  have htables' : (l.memorySortedPage heeds q' field o s').2.store.tables = s'.store.tables :=
    (memorySortedPage_leaves hc hreads hfield hrows').tables
  obtain ⟨result, s₁, s₁', hrun, hrun', hunheard, hunheard'⟩ :=
    (memorySortedPage_together hc hl htoken htoken' hproject hrows hrows' field o).split
  rw [hrun] at htables
  rw [hrun'] at htables'
  rw [virtualSortedPage_eq hl.backend hrows, virtualSortedPage_eq hl.backend hrows']
  split
  · split
    · exact databasePage_together hl htoken htoken' hproject hrows hrows' none o .fallback
    · exact ⟨rfl, htoken, htoken'⟩
  · rw [hrun, hrun']
    cases result with
    | ok page => exact ⟨rfl, hunheard, hunheard'⟩
    | error e =>
      dsimp only
      split
      · exact databasePage_together hl hunheard hunheard' hproject
          ((Store.matching_of_tables htables).trans hrows)
          ((Store.matching_of_tables htables').trans hrows') none o .fallback
      · exact ⟨rfl, hunheard, hunheard'⟩

end Queries

section Plans

variable {plan plan' : ListingPlan} (hplans : plan.Reorders plan')
  (hplan : plan.Sufficient l.engine.catalog) {rows : List Entity}
  (hrows : s.store.matching plan.query = .ok rows) (hrows' : s'.store.matching plan'.query = .ok rows)
  (hids : (rows.map (·.id)).Nodup)
  (hample : ∀ cl ∈ plan.translation.virtualClauses,
    Ample l.engine (rows.map (Store.project plan.query)) cl.field)

include hc hl htoken htoken' hplans hplan hrows hrows' hids hample

/-- **The same rows satisfy the clauses in either order**, and come with the same values. -/
theorem filteredPage_together :
    Together heeds (l.filteredPage heeds plan s) (l.filteredPage heeds plan' s') := by
  -- the store may sort the rows by a column; this changes neither their identities nor the work on them
  have harrange := Store.arrange_perm (storeOrder plan.sort plan.options.direction) rows
  have hnodup : (((Store.arrange (storeOrder plan.sort plan.options.direction) rows).map
      (Store.project plan.query)).map (·.id)).Nodup := by
    rw [ids_project]
    exact (harrange.map _).nodup_iff.2 hids
  have hcovered : ∀ cl ∈ plan.translation.virtualClauses, Ample l.engine ((Store.arrange
      (storeOrder plan.sort plan.options.direction) rows).map (Store.project plan.query)) cl.field := by
    intro cl hcl v hv
    rw [Work.total_perm (harrange.map _)]
    exact hample cl hcl v hv
  obtain ⟨result, engine, engine', hrun, hrun', hunheard, hunheard'⟩ :=
    (Engine.narrow_together hc hl.pure hl.engineCache hl.abort hl.policy hnodup
      hplans.translation.virtualClauses.symm (fun cl hcl => hplan.wanted cl.field (.inl ⟨cl, hcl, rfl⟩))
      hcovered htoken htoken').split
  rw [filteredPage_eq hl.backend hrows, filteredPage_eq hl.backend hrows', hplans.sort, hplans.options,
    hplans.project, loaded_eq, hrun, hrun']
  split
  · exact ⟨rfl, htoken, htoken'⟩
  cases result with
  | error err => exact ⟨rfl, hunheard, hunheard'⟩
  | ok kept =>
    dsimp only
    generalize (l.fetchAll plan.query _ s).2.store = store
    generalize (l.fetchAll plan'.query _ s').2.store = store'
    have harranged : Together heeds
        (l.arrangeFiltered heeds plan.sort plan.options.direction kept ⟨engine, store⟩)
        (l.arrangeFiltered heeds plan.sort plan.options.direction kept ⟨engine', store'⟩) :=
      arrangeFiltered_together hc hl hunheard hunheard' plan.sort plan.options.direction kept
    obtain ⟨arranged, s₁, s₁', hrun, hrun', hunheard, hunheard'⟩ := harranged.split
    rw [hrun, hrun']
    cases arranged <;> exact ⟨rfl, hunheard, hunheard'⟩

/-- **Every way to a page leads both to one page.** -/
theorem page_together : Together heeds (l.page heeds plan s) (l.page heeds plan' s') := by
  unfold page
  rw [hplans.translation.hasVirtualFilters, hplans.sort, hplans.options]
  split
  · exact filteredPage_together hc hl htoken htoken' hplans hplan hrows hrows' hids hample
  · cases hsort : plan.sort with
    | none => exact databasePage_together hl htoken htoken' hplans.project hrows hrows' _ _ _
    | some key =>
      cases key with
      | column name => exact databasePage_together hl htoken htoken' hplans.project hrows hrows' _ _ _
      | virtual field =>
        exact virtualSortedPage_together hc hl htoken htoken' hplans.project hrows hrows'
          (hplan.wanted field (.inr hsort)) _

end Plans

end Pages

end Listing

/-! ## Answers -/

/-- Responses that differ in the order of what they say about the filters, and in their links. -/
structure Response.Reorders (r r' : Response) : Prop where
  data : r'.data = r.data
  sort : r'.sort = r.sort
  pagination : r'.pagination = { r.pagination with links := r'.pagination.links }
  filters : r'.filters.Perm r.filters
  warnings : r'.warnings.Perm r.warnings

/-- Responses of this kind, or errors that differ at most in the order of what has been refused. -/
inductive Answer.Reorders : Except Error Response → Except Error Response → Prop
  | ok {r r' : Response} (h : r.Reorders r') : Reorders (.ok r) (.ok r')
  | refused {e e' : FilterError} (h : e.Reorders e') : Reorders (.error (.filter e)) (.error (.filter e'))
  | failed (e : Error) : Reorders (.error e) (.error e)

namespace Listing

/-- No ceiling is reached by the clauses of a request, even if each of them is evaluated on all rows that
the store finds. -/
def CoversClauses (l : Listing σ Store) (entityType : String) (p : Params) (store : Store) : Prop :=
  ∀ plan table, l.engine.catalog.planRequest l.settings entityType p = .ok plan →
    store.table? entityType = some table → ∀ cl ∈ plan.translation.virtualClauses,
      Ample l.engine ((plan.admitted table).map (Store.project plan.query)) cl.field

/-- The two requests are told the same about a page, but for the order of the filters. -/
theorem respond_reorders (l : Listing σ Store) {plan plan' : ListingPlan} (h : plan.Reorders plan')
    {p p' : Params} (page : Page) (rows : List Row) :
    (l.respond p plan page rows).Reorders (l.respond p' plan' page rows) := by
  unfold respond
  rw [h.selection, h.sort, h.options]
  exact { data := rfl, sort := rfl, pagination := rfl, filters := h.translation.active.map _,
          warnings := h.warnings }

/-- **Plans that lead to one page come to one answer**, but for the order of the filters. -/
theorem execute_together {l : Listing σ Store} (hc : l.engine.catalog.Lawful) (hl : l.Lenient)
    {entityType : String} {p p' : Params} {plan plan' : ListingPlan} (hplans : plan.Reorders plan')
    (hrequest : l.engine.catalog.planRequest l.settings entityType p = .ok plan)
    (hrequest' : l.engine.catalog.planRequest l.settings entityType p' = .ok plan') {heeds : Bool}
    {s s' : ListingState σ Store} (hpage : Together heeds (l.page heeds plan s) (l.page heeds plan' s')) :
    Answer.Reorders (l.execute heeds entityType p s).1 (l.execute heeds entityType p' s').1 := by
  have hselected : selectedFields plan' = selectedFields plan := by
    unfold selectedFields
    rw [hplans.selection]
  obtain ⟨found, s₁, s₁', hrun, hrun', htoken, htoken'⟩ := hpage.split
  rw [execute_eq hrequest, execute_eq hrequest', hselected, hrun, hrun']
  cases found with
  | error e => exact .failed e
  | ok page =>
    obtain ⟨shown, engine, engine', hfill, hfill', -, -⟩ := (Engine.fillAll_together hc hl.pure
      hl.engineCache .useDefault (selectedFields plan) page.rows htoken htoken').split
    dsimp only
    rw [hfill, hfill']
    cases shown with
    | error err => exact .failed _
    | ok rows => exact .ok (respond_reorders l hplans page rows)

/-- **The order of filters does not matter.**  Requests with the same filters in different orders are
answered with the same rows, sorting and page numbers, or with errors that say the same; what they say about
each filter stands in the order of the request. -/
theorem execute_reorders (rs : List Registration) {l : Listing σ Store}
    (hcatalog : l.engine.catalog = Catalog.enterAll {} rs) (hl : l.Lenient) {p p' : Params}
    (hp : p.Reorders p') (entityType : String) {s s' : ListingState σ Store}
    (htables : s'.store.tables = s.store.tables)
    (hids : ∀ t table, s.store.table? t = some table → (table.map (·.id)).Nodup)
    (hcovers : l.CoversClauses entityType p s.store) {heeds : Bool}
    (htoken : (heeds && s.engine.cancelled) = false)
    (htoken' : (heeds && s'.engine.cancelled) = false) :
    Answer.Reorders (l.execute heeds entityType p s).1 (l.execute heeds entityType p' s').1 := by
  have hc : l.engine.catalog.Lawful := by
    rw [hcatalog]
    exact Catalog.Lawful.empty.enterAll rs
  rcases Catalog.planRequest_reorders (c := l.engine.catalog) (s := l.settings) hp entityType with
    ⟨plan, plan', hrequest, hrequest', hplans⟩ | ⟨e, e', he, he', hsame⟩
  · apply execute_together hc hl hplans hrequest hrequest'
    cases htable : s.store.table? entityType with
    | none =>
      have hnone : s.store.table? plan.query.entityType = none := by
        rw [Catalog.entityType_of_planRequest hrequest, htable]
      have hnone' : s'.store.table? plan'.query.entityType = none := by
        unfold Store.table? at hnone ⊢
        rw [htables, hplans.entityType, hnone]
      rw [page_unknown hl.backend hnone, page_unknown hl.backend hnone', hplans.entityType]
      exact ⟨rfl, htoken, htoken'⟩
    | some table =>
      have hfinds := finds_of_planRequest hids hc hrequest htable
      have hfinds' := finds_of_planRequest hids hc hrequest' htable
      have hrows' : s'.store.matching plan'.query = .ok (plan.admitted table) := by
        rw [hfinds'.matching htables]
        unfold ListingPlan.admitted
        rw [hplans.translation.admits]
      exact page_together hc hl htoken htoken' hplans hfinds.sufficient (hfinds.matching rfl) hrows'
        hfinds.ids (hcovers plan table hrequest htable)
  · rw [execute_refused he, execute_refused he']
    exact .refused hsame

section Quarters

/-- Half of a half that is even. -/
def quarter : VirtualField where
  name := "quarter"
  fieldType := .integer
  computation := .pure fun _ i =>
    match i.get? "half" with
    | some (.int n) => if n % 2 = 0 then .ok (.int (n / 2)) else .error "odd"
    | _ => .error "no number"
  computationName := "quarter"
  dependencies := ["half"]
  operators := [.lt]

/-- A listing of items that leaves out what has no half or quarter. -/
def quartering : Listing Unit Store where
  engine := { catalog := Catalog.enterAll {} [.field countColumn, .virtual listedHalf, .virtual quarter]
              settings := { failurePolicy := .exclude }
              digest := id }
  backend := Store.backend

/-- Seven items with counts. -/
def counts : List Entity :=
  [(1, 4), (2, 6), (3, 3), (4, 8), (5, 2), (6, 24), (7, 16)].map fun p => Engine.counted p.1 p.2

/-- The store with these items. -/
def countsState : ListingState Unit Store where
  engine := { cache := () }
  store := { tables := [("item", counts)] }

/-- Items with a half above one and a quarter below three, by their halves. -/
def halfFirst : Params :=
  ⟨[("half", ">1"), ("quarter", "<3"), ("count", "<20"), ("sort_by", "half"), ("sort_direction", "desc")]⟩

/-- The same with the quarter first. -/
def quarterFirst : Params :=
  ⟨[("count", "<20"), ("sort_by", "half"), ("quarter", "<3"), ("sort_direction", "desc"), ("half", ">1")]⟩

theorem quartering_lenient : quartering.Lenient where
  pure := by
    intro p hp
    have hfields : quartering.engine.catalog.virtualFields =
        [("half", listedHalf), ("quarter", quarter)] := rfl
    rw [hfields] at hp
    simp only [List.mem_cons, List.not_mem_nil, or_false] at hp
    obtain rfl | rfl := hp
    · exact { looks := fun _ _ => rfl, keeps := fun _ _ => rfl }
    · exact { looks := fun _ _ => rfl, keeps := fun _ _ => rfl }
  backend := rfl
  engineCache := rfl
  sortCache := rfl
  abort := rfl
  policy := by decide

theorem counts_covered : quartering.CoversClauses "item" halfFirst countsState.store := by
  intro plan table hplan htable cl hcl v hv
  obtain ⟨-, rfl⟩ := Catalog.planRequest_ok hplan
  obtain rfl : counts = table := Option.some.inj htable
  have hfields : (quartering.settings.filter.collect quartering.engine.catalog
      halfFirst).virtualClauses.map (·.field) = ["half", "quarter"] := by
    with_unfolding_all rfl
  have hfield : cl.field ∈ ["half", "quarter"] := hfields ▸ List.mem_map_of_mem hcl
  simp only [List.mem_cons, List.not_mem_nil, or_false] at hfield
  rcases hfield with hhalf | hquarter
  · rw [hhalf] at hv
    obtain rfl : listedHalf = v := Option.some.inj hv
    constructor <;> decide +kernel
  · rw [hquarter] at hv
    obtain rfl : quarter = v := Option.some.inj hv
    constructor <;> decide +kernel

/-- Items without a half or a quarter leave the result at different clauses of the two requests, and the same
two items remain. -/
theorem execute_quarters :
    halfFirst.Reorders quarterFirst ∧
    (quartering.execute false "item" quarterFirst countsState).1.toOption.map
      (fun r => (r.ids.map Json.compact, r.pagination.total)) = some (["4", "1"], 2) ∧
    Answer.Reorders (quartering.execute false "item" halfFirst countsState).1
      (quartering.execute false "item" quarterFirst countsState).1 := by
  have hreorders : halfFirst.Reorders quarterFirst :=
    Params.reorders_of_perm (by decide) (by decide)
  have hids : ∀ t table, countsState.store.table? t = some table → (table.map (·.id)).Nodup := by
    intro t table htable
    have hcounts : (t, table) = ("item", counts) := List.mem_singleton.1 (KeyMap.mem_of_get? htable)
    rw [(Prod.mk.inj hcounts).2]
    decide
  refine ⟨hreorders, by decide +kernel, ?_⟩
  exact execute_reorders [.field countColumn, .virtual listedHalf, .virtual quarter] rfl
    quartering_lenient hreorders "item" rfl hids counts_covered rfl rfl

end Quarters

end Listing

end FieldQuery
