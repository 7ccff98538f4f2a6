import FieldQuery.Computation.Builtin
import FieldQuery.Proofs.Engine.Asks
import FieldQuery.Proofs.Listing.Sortable

/-!
# Requests that select other fields

What a request selects changes what is loaded of each row, and which virtual fields are computed for the
rows of the page. It does not change which rows there are.

* `Params.Reselects` — two requests that differ in the fields that they select only;
* `ListingPlan.Reselects` — two plans for the same rows;
* `Response.SameRows` — two responses that show the same rows, each of them as its request selects.

Principal results: `planRequest_reselects`, `settles_reselects` — both plans come to one strategy, and
`execute_reselects`.
-/

namespace FieldQuery

open Meaning

variable {σ : Type}

/-- Two requests that differ in the fields that they select only. -/
structure Params.Reselects (p p' : Params) : Prop where
  filters : p'.filters = p.filters
  options : ∀ name ∈ reservedNames, name ≠ "fields" → p'.get? name = p.get? name

/-- A request may select any fields, whether it has selected some before or not. -/
theorem Params.reselects_insert (p : Params) (fields : String) :
    p.Reselects (p.insert "fields" fields) where
  filters := Params.filters_insert (by decide) fields p
  options _ _ hname := Params.get?_insert_ne hname fields p

/-- Two plans for the same rows. -/
structure ListingPlan.Reselects (plan plan' : ListingPlan) : Prop where
  entityType : plan'.query.entityType = plan.query.entityType
  translation : plan'.translation = plan.translation
  sort : plan'.sort = plan.sort
  page : plan'.options.page = plan.options.page
  perPage : plan'.options.perPage = plan.options.perPage
  direction : plan'.options.direction = plan.options.direction

/-- Two responses that show the same rows of a table, each of them as its plan selects. -/
structure Response.SameRows (table : List Entity) (plan plan' : ListingPlan) (r r' : Response) :
    Prop where
  shown : ∃ rows ⊆ table, Shown plan.selection (rows.map (Store.project plan.query)) r.data ∧
    Shown plan'.selection (rows.map (Store.project plan'.query)) r'.data
  /-- Identities are shown as such, where nothing stands in their place. -/
  ids : "id" ∉ Listing.selectedFields plan → "id" ∉ Listing.selectedFields plan' →
    (∀ e ∈ table, e.KeepsId) → r'.ids = r.ids
  pagination : r'.pagination = { r.pagination with links := r'.pagination.links }
  sort : r'.sort = r.sort

/-- **Requests that select other fields have plans for the same rows.** -/
theorem Catalog.planRequest_reselects {c : Catalog} {s : Settings} {entityType : String} {p p' : Params}
    (h : p.Reselects p') {plan plan' : ListingPlan} (hplan : c.planRequest s entityType p = .ok plan)
    (hplan' : c.planRequest s entityType p' = .ok plan') : plan.Reselects plan' := by
  obtain ⟨ht, rfl⟩ := planRequest_ok hplan
  obtain ⟨ht', rfl⟩ := planRequest_ok hplan'
  have htranslation : s.filter.collect c p' = s.filter.collect c p := by
    have hsame := FilterSettings.translate_congr (s := s.filter) (c := c) h.filters
      (h.options "search" (by decide) (by decide))
    rw [ht, ht'] at hsame
    exact Except.ok.inj hsame
  have hoption : ∀ name ∈ reservedNames, name ≠ "fields" → p'.get? name = p.get? name := h.options
  have hsort : (Options.ofParams p' s.pagination).sortBy = (Options.ofParams p s.pagination).sortBy := by
    unfold Options.ofParams
    rw [hoption "sort_by" (by decide) (by decide)]
  have hkey : c.sortKeyOf (Options.ofParams p' s.pagination) =
      c.sortKeyOf (Options.ofParams p s.pagination) := by
    unfold sortKeyOf
    rw [hsort]
  unfold planOf
  dsimp only
  refine ⟨rfl, htranslation, congrArg Prod.fst hkey, ?_, ?_, ?_⟩
  · show (Options.ofParams p' s.pagination).page = (Options.ofParams p s.pagination).page
    unfold Options.ofParams
    rw [hoption "page" (by decide) (by decide)]
  · show (Options.ofParams p' s.pagination).perPage = (Options.ofParams p s.pagination).perPage
    unfold Options.ofParams
    rw [hoption "per_page" (by decide) (by decide)]
  · show (Options.ofParams p' s.pagination).direction = (Options.ofParams p s.pagination).direction
    unfold Options.ofParams
    rw [hoption "sort_direction" (by decide) (by decide)]

namespace ListingPlan.Reselects

variable {plan plan' : ListingPlan} (h : plan.Reselects plan') (c : Catalog) (policy : FailurePolicy)
  (table : List Entity)

include h

theorem admitted : plan'.admitted table = plan.admitted table := by
  unfold ListingPlan.admitted
  rw [h.translation]

theorem chosen : plan'.chosen c policy table = plan.chosen c policy table := by
  unfold ListingPlan.chosen
  rw [h.translation, h.sort, h.direction, h.admitted]

theorem listed (strategy : SortStrategy) :
    plan'.listed c policy strategy table = plan.listed c policy strategy table := by
  unfold ListingPlan.listed
  rw [h.sort, h.direction, h.chosen]

theorem offset : plan'.options.offset = plan.options.offset := by
  unfold Options.offset
  rw [h.page, h.perPage]

omit h in
theorem symm (h : plan.Reselects plan') : plan'.Reselects plan :=
  ⟨h.entityType.symm, h.translation.symm, h.sort.symm, h.page.symm, h.perPage.symm, h.direction.symm⟩

/-- What can be sorted for one plan can be for the other one. -/
theorem sortable {l : Listing σ Store} {field : String} (hsortable : l.Sortable plan table field) :
    l.Sortable plan' table field where
  few := by
    rw [h.admitted]
    exact hsortable.few
  managed := by
    rw [h.translation, h.chosen]
    exact hsortable.managed

/-- Both plans come to one strategy. -/
theorem settles {l : Listing σ Store} {strategy : SortStrategy}
    (hsettles : l.Settles plan table strategy) : l.Settles plan' table strategy := by
  cases hsettles with
  | asked hasked =>
    have hstrategy : plan'.strategy = plan.strategy := by
      unfold ListingPlan.strategy
      rw [h.sort]
    rw [← hstrategy]
    exact .asked fun field hsort => h.sortable table (hasked field (h.sort.symm.trans hsort))
  | given_up hsort hnot =>
    exact .given_up (h.sort.trans hsort) fun hsortable => hnot (h.symm.sortable table hsortable)

end ListingPlan.Reselects

/-- **Windows on the same rows**, under one strategy. -/
theorem Response.Lists.sameRows {c : Catalog} {policy : FailurePolicy} {plan plan' : ListingPlan}
    {table : List Entity} {r r' : Response} (h : r.Lists c policy plan table)
    (h' : r'.Lists c policy plan' table) (hplans : plan.Reselects plan') (hsort : r'.sort = r.sort) :
    r.SameRows table plan plan' r' := by
  have hlisted := hplans.listed c policy table r.sort.strategy
  have hrows' := h'.rows
  rw [hsort, hlisted, hplans.offset, hplans.perPage] at hrows'
  have hsubset : ((plan.listed c policy r.sort.strategy table).drop plan.options.offset).take
      plan.options.perPage ⊆ table :=
    (((List.take_sublist _ _).trans (List.drop_sublist _ _)).subperm.trans
      (ListingPlan.listed_subperm _)).subset
  have hselected : ∀ {plan : ListingPlan}, "id" ∉ Listing.selectedFields plan →
      ∀ s, plan.selection = some s → "id" ∉ s.virtualFields := by
    intro plan hnot s hs hmem
    refine hnot ?_
    unfold Listing.selectedFields
    rw [hs]
    exact hmem
  refine ⟨⟨_, hsubset, h.rows, hrows'⟩, fun hid hid' hkeeps => ?_, ?_, hsort⟩
  · have hkept := fun e he => hkeeps e (hsubset he)
    exact (hrows'.ids hkept (hselected hid')).trans (h.rows.ids hkept (hselected hid)).symm
  · obtain ⟨basePath, p, hpagination⟩ := h.pagination
    obtain ⟨basePath', p', hpagination'⟩ := h'.pagination
    rw [hpagination, hpagination', hsort, hlisted, hplans.page, hplans.perPage]
    rfl

namespace Listing

/-- **The fields that a request selects do not change which rows are returned.**  A listing over tables in
memory, with a cache for orders or without one and without a cache of values, has answered two requests
that differ in the fields that they select only, each of them after any other requests.  Then both
responses show the same rows in the same order, at the same place among all rows and under the same
strategy, whatever the policy is and whatever fails while the selected fields are computed.  They tell the
same identities, unless a virtual field that is called as the identity is has been selected, or a row has
an attribute or a relation of this name. -/
theorem execute_reselects {l : Listing σ Store} (rs : List Registration)
    (hcatalog : l.engine.catalog = Catalog.enterAll {} rs) (hofInputs : l.engine.catalog.IsOfInputs)
    (hbackend : l.backend = Store.backend) (hnone : l.engine.cache = none)
    {start : ListingState σ Store} {requests : String → Params → Prop}
    (hhonest : ∀ cache, l.sortCache = some cache →
      cache.IsHonest EntityId.decodeList? start.engine.cache)
    (hdigests : ∀ a a', l.AsksOf requests a → l.AsksOf requests a' →
      l.engine.digest a.text = l.engine.digest a'.text → a.text = a'.text)
    (hids : ∀ t table, start.store.table? t = some table → (table.map (·.id)).Nodup)
    {entityType : String} {p p' : Params} (hselects : p.Reselects p')
    (hp : requests entityType p) (hp' : requests entityType p')
    {s s' : ListingState σ Store} (hs : l.Serves requests start s) (hs' : l.Serves requests start s')
    {heeds heeds' : Bool} {r r' : Response} (hok : (l.execute heeds entityType p s).1 = .ok r)
    (hok' : (l.execute heeds' entityType p' s').1 = .ok r') :
    ∃ plan plan' table, l.engine.catalog.planRequest l.settings entityType p = .ok plan ∧
      l.engine.catalog.planRequest l.settings entityType p' = .ok plan' ∧
      start.store.table? entityType = some table ∧ r.SameRows table plan plan' r' := by
  have hl : l.Recomputes :=
    { lawful := by
        rw [hcatalog]
        exact Catalog.Lawful.empty.enterAll rs
      inputs := hofInputs
      backend := hbackend
      engineCache := hnone }
  have htrusted := trusted_asksOf hhonest hdigests
  -- Each response is the window of its own plan, under the strategy that this plan comes to.
  have hwindow : ∀ {p : Params} {s : ListingState σ Store} {heeds : Bool} {r : Response},
      requests entityType p → l.Serves requests start s → (l.execute heeds entityType p s).1 = .ok r →
      ∃ plan table, l.engine.catalog.planRequest l.settings entityType p = .ok plan ∧
        start.store.table? entityType = some table ∧
        r.Lists l.engine.catalog l.engine.settings.failurePolicy plan table ∧
        l.Settles plan table r.sort.strategy ∧
        r.sort = ⟨plan.sort.map SortKey.name, plan.options.direction, r.sort.strategy⟩ := by
    intro p s heeds r hp hs hok
    obtain ⟨htables, hholds⟩ := serves_holds hl hids hs
    cases hrequest : l.engine.catalog.planRequest l.settings entityType p with
    | error err =>
      rw [execute_refused hrequest] at hok
      cases hok
    | ok plan =>
      obtain ⟨table, htable⟩ := table_of_execute hl.backend hrequest hok
      have htable : start.store.table? entityType = some table := by
        rw [← htable]
        unfold Store.table?
        rw [htables]
      have hplan := finds_of_planRequest hids hl.lawful hrequest htable
      have hasks := @asks_of_planRequest _ l (l.AsksOf requests) { entityType := entityType, params := p }
        (fun a ha => ⟨entityType, p, hp, ha⟩) _ hrequest
      refine ⟨plan, table, rfl, htable, execute_lists hl hplan htrusted hasks hrequest htables hholds hok,
        execute_settles hl hplan htrusted hasks hrequest htables hholds hok, ?_⟩
      obtain ⟨page, s₁, rows, -, -, rfl⟩ := (execute_ok_iff hrequest).1 hok
      rfl
  obtain ⟨plan, table, hplan, htable, hlists, hsettles, hsort⟩ := hwindow hp hs hok
  obtain ⟨plan', table', hplan', htable', hlists', hsettles', hsort'⟩ := hwindow hp' hs' hok'
  obtain rfl : table = table' := Option.some.inj (htable.symm.trans htable')
  have hplans := Catalog.planRequest_reselects hselects hplan hplan'
  have hstrategy := (hplans.settles table hsettles).unique hsettles'
  refine ⟨plan, plan', table, hplan, hplan', htable, hlists.sameRows hlists' hplans ?_⟩
  rw [hsort, hsort', hplans.sort, hplans.direction, hstrategy]

section Halves

/-- The listing after the first two items by their halves, which have left their order in the cache. -/
def halvesSeen : ListingState MemoryCache Store :=
  (remembering.execute false "item" byHalf rememberingStart).2

/-- The same items with their halves only, cut out of the cached order. -/
theorem execute_halvesOnly : ∃ r r',
    (remembering.execute false "item" byHalf rememberingStart).1 = .ok r ∧
    (remembering.execute false "item" (byHalf.insert "fields" "half") halvesSeen).1 = .ok r' ∧
    r.ids.map Json.compact = ["4", "1"] ∧ (r'.column "count").map Json.compact = ["null", "null"] ∧
    ∃ plan plan' table, r.SameRows table plan plan' r' := by
  have hshown : (remembering.execute false "item" byHalf rememberingStart).1.toOption.map
      (fun r => r.ids.map Json.compact) = some ["4", "1"] := by
    decide +kernel
  have hshown' : (remembering.execute false "item" (byHalf.insert "fields" "half")
      halvesSeen).1.toOption.map (fun r => (r.column "count").map Json.compact) =
        some ["null", "null"] := by
    decide +kernel
  cases hrun : (remembering.execute false "item" byHalf rememberingStart).1 with
  | error e =>
    rw [hrun] at hshown
    cases hshown
  | ok r =>
    cases hrun' : (remembering.execute false "item" (byHalf.insert "fields" "half") halvesSeen).1 with
    | error e =>
      rw [hrun'] at hshown'
      cases hshown'
    | ok r' =>
      rw [hrun] at hshown
      rw [hrun'] at hshown'
      have hserves : remembering.Serves (fun _ _ => True) rememberingStart halvesSeen :=
        .request .start false trivial
      obtain ⟨plan, plan', table, -, -, -, hsame⟩ := execute_reselects
        [.field countColumn, .virtual listedHalf] rfl remembering_inputs rfl rfl
        (by rintro cache ⟨⟩; exact MemoryCache.isHonest 10 _) (fun _ _ _ _ h => h)
        rememberingStart_keyed.ids (byHalf.reselects_insert "half")
        trivial trivial .start hserves hrun hrun'
      exact ⟨r, r', rfl, rfl, Option.some.inj hshown, Option.some.inj hshown', plan, plan', table, hsame⟩

end Halves

section Numbered

/-- The numbers of items. -/
def numberColumn : Field where
  name := "n"
  fieldType := .integer
  operators := FieldType.integer.operators

/-- A virtual field that is called as the identity is. -/
def numberAsId : VirtualField where
  name := "id"
  fieldType := .integer
  computation := .coalesce
  computationName := "coalesce"
  dependencies := ["n"]
  operators := FieldType.integer.operators

/-- Another name for it. -/
def numberDefinitions : List Registration :=
  [.field numberColumn, .virtual numberAsId, .aliased "key" "id"]

/-- A listing of items with numbers. -/
def numbering : Listing MemoryCache Store where
  engine := { catalog := Catalog.enterAll {} numberDefinitions, digest := id }
  backend := Store.backend

/-- An item whose number is not its identity. -/
def numbered : ListingState MemoryCache Store where
  engine := { cache := .empty 10 }
  store := { tables := [("item", [.mk "item" (.int 1) [("n", .int 7)] []])] }

/-- The identities in a response. -/
def idsShown (found : Except Error Response) : Option (List String) :=
  found.toOption.map fun r => r.ids.map Json.compact

/-- **A virtual field may stand in the place of the identity**: under its own name it is not selected, but
under an alias it is. -/
theorem execute_renumbers :
    (∀ r ∈ numberDefinitions, r.IsBuilt) ∧ numbering.engine.catalog.IsOfInputs ∧
    (∀ t table, numbered.store.table? t = some table → (table.map (·.id)).Nodup) ∧
    (⟨[("fields", "n")]⟩ : Params).Reselects ⟨[("fields", "key")]⟩ ∧
    idsShown (numbering.execute false "item" ⟨[("fields", "n")]⟩ numbered).1 = some ["1"] ∧
    idsShown (numbering.execute false "item" ⟨[("fields", "key")]⟩ numbered).1 = some ["7"] := by
  refine ⟨fun r hr => ?_, fun p hp => ?_, fun t table htable => ?_,
    Params.reselects_insert ⟨[("fields", "n")]⟩ "key", by decide +kernel, by decide +kernel⟩
  · simp only [numberDefinitions, List.mem_cons, List.not_mem_nil, or_false] at hr
    obtain rfl | rfl | rfl := hr
    · exact ⟨{ name := "n", fieldType := .integer }, rfl⟩
    · exact ⟨{ name := "id", fieldType := .integer, computation := some .coalesce,
               computationName := some "coalesce", dependencies := ["n"] }, rfl⟩
    · exact trivial
  · have hfields : numbering.engine.catalog.virtualFields = [("id", numberAsId)] := rfl
    rw [hfields] at hp
    obtain rfl := List.mem_singleton.1 hp
    exact { looks := fun _ _ => rfl, keeps := fun _ _ => rfl, ref := fun _ _ _ _ => rfl }
  · have hnumbered : (t, table) = ("item", _) := List.mem_singleton.1 (KeyMap.mem_of_get? htable)
    rw [(Prod.mk.inj hnumbered).2]
    decide

end Numbered

end Listing

end FieldQuery
