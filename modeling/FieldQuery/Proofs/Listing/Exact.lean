import FieldQuery.Proofs.Engine.Cached
import FieldQuery.Proofs.Listing.Reselected
import FieldQuery.Proofs.Listing.Separate
import FieldQuery.Proofs.Listing.Views

/-!
# Responses show what has been selected

A request that selects fields loads more than it shows: what clauses, sort key and virtual fields need as
well.  Each row of its response shows what is asked for of a row of the table, and nothing else.

* `Listing.Stored` — a row stands for a row of the table, as the query of a plan loads it;
* `Params.Rearranges` — two requests that select the same fields, in another order and number;
* `ListingPlan.rearranged` — a plan with other names for the same selection.

Principal results: `page_stored` — the rows of a page are rows of the table, whatever their identities and
the caches are, `planRequest_rearranged` — requests for the same fields load the same, and `execute_exact`.
That the order of names does not matter fails for values that their texts do not keep: `execute_inexact`.
-/

namespace FieldQuery

variable {σ : Type}

/-! ## Rows of the table -/

namespace Listing

/-- A row stands for a row of the table that satisfies the clauses on columns and the search. -/
def Stored (plan : ListingPlan) (table : List Entity) (r : Row) : Prop :=
  ∃ e ∈ plan.admitted table, r.entity = Store.project plan.query e

section Pages

variable {l : Listing σ Store} {plan : ListingPlan} {s : ListingState σ Store} {table : List Entity}

theorem Stored.of_admits {r : Row} (h : Admits l.engine plan table r) : Stored plan table r := by
  obtain ⟨e, he, hadmits, hentity⟩ := h.stored
  exact ⟨e, List.mem_filter.2 ⟨he, hadmits⟩, hentity⟩

theorem Stored.of_extends {r r' : Row} (h : Stored plan table r) (hext : r.Extends r') :
    Stored plan table r' := by
  obtain ⟨e, he, hentity⟩ := h
  exact ⟨e, he, hext.entity.trans hentity⟩

theorem Stored.ordered {r : Row} (h : Stored plan table r) (hordered : ∀ e ∈ table, e.Ordered) :
    r.entity.Ordered := by
  obtain ⟨e, he, hentity⟩ := h
  rw [hentity]
  exact (hordered e (List.mem_filter.1 he).1).project _ _

/-- Rows that are arranged are rows that were there. -/
theorem arrangeFiltered_extends {heeds : Bool} {sort : Option SortKey} {direction : Direction}
    {rows : List Row} {arranged : List Row × SortStrategy}
    (h : (l.arrangeFiltered heeds sort direction rows s).1 = .ok arranged) :
    ∀ r' ∈ arranged.1, ∃ r ∈ rows, r.Extends r' := by
  unfold arrangeFiltered at h
  split at h
  · cases h
    exact fun r hr => ⟨r, hr, .refl r⟩
  · cases h
    exact fun r hr => ⟨r, hr, .refl r⟩
  · rename_i field
    rw [sortFiltered_eq] at h
    cases hrun : l.engine.fill heeds .drop field rows s.engine with
    | mk result engine =>
      rw [hrun] at h
      cases result with
      | ok filled =>
        cases h
        exact fun r hr => Engine.fill_extends (congrArg Prod.fst hrun) r
          ((sortBy_perm _ _).mem_iff.1 hr)
      | error err =>
        dsimp only at h
        split at h <;> cases h
        exact fun r hr => ⟨r, hr, .refl r⟩

/-- **Every way to a page leads to rows of the table**, whatever their identities and the caches are. -/
theorem page_stored (hbackend : l.backend = Store.backend)
    (hfound : s.store.matching plan.query = .ok (plan.admitted table)) {heeds : Bool} {page : Page}
    (h : (l.page heeds plan s).1 = .ok page) : ∀ r ∈ page.rows, Stored plan table r := by
  unfold Listing.page at h
  split at h
  · rw [filteredPage_eq hbackend hfound] at h
    split at h
    · cases h
    cases hrun : l.engine.narrow heeds plan.translation.virtualClauses
        ((Store.arrange (storeOrder plan.sort plan.options.direction) (plan.admitted table)).map fun e =>
          { entity := Store.project plan.query e }) s.engine with
    | mk result engine =>
      rw [hrun] at h
      cases result with
      | error err => cases h
      | ok kept =>
        -- no clause adds a row, so that identities do not matter
        have hkept : ∀ r ∈ kept, Stored plan table r := by
          intro r hr
          have hmem := (Engine.narrow_sublist (congrArg Prod.fst hrun)).subset
            (List.mem_map_of_mem (f := Row.entity) hr)
          rw [List.map_map] at hmem
          obtain ⟨e, he, hentity⟩ := List.mem_map.1 hmem
          exact ⟨e, (Store.arrange_perm _ _).mem_iff.1 he, hentity.symm⟩
        dsimp only at h
        have hextends := fun arranged => @arrangeFiltered_extends σ l
          ⟨engine, (l.fetchAll plan.query (storeOrder plan.sort plan.options.direction) s).2.store⟩
          heeds plan.sort plan.options.direction kept arranged
        generalize l.arrangeFiltered heeds plan.sort plan.options.direction kept _ = run at h hextends
        obtain ⟨result, s'⟩ := run
        cases result with
        | error err => cases h
        | ok arranged =>
          cases h
          intro r hr
          obtain ⟨r₀, hr₀, hext⟩ := hextends arranged rfl r (mem_pageOf hr)
          exact (hkept r₀ hr₀).of_extends hext
  · rename_i hfilters
    have hnone : plan.translation.virtualClauses = [] := by
      unfold Translation.hasVirtualFilters at hfilters
      simpa using hfilters
    cases hsort : plan.sort with
    | none =>
      rw [hsort] at h
      exact fun r hr => .of_admits ((databasePage_keeps hbackend hfound hnone _ _).good page h r hr)
    | some key =>
      rw [hsort] at h
      cases key with
      | column name =>
        exact fun r hr => .of_admits ((databasePage_keeps hbackend hfound hnone _ _).good page h r hr)
      | virtual field =>
        exact fun r hr => .of_admits
          ((virtualSortedPage_keeps heeds hbackend hfound hnone field).good page h r hr)

/-- Rows of a page that are filled with fields are rows of the table. -/
theorem filled_stored (hbackend : l.backend = Store.backend)
    (hfound : s.store.matching plan.query = .ok (plan.admitted table)) {heeds : Bool} {page : Page}
    {s₁ : ListingState σ Store} (hpage : l.page heeds plan s = (.ok page, s₁)) {fields : List String}
    {rows : List Row}
    (hfill : (l.engine.fillAll heeds .useDefault fields page.rows s₁.engine).1 = .ok rows) :
    ∀ r ∈ rows, Stored plan table r := by
  intro r hr
  obtain ⟨r₀, hr₀, hext⟩ := Engine.fillAll_extends fields hfill r hr
  exact (page_stored hbackend hfound (congrArg Prod.fst hpage) r₀ hr₀).of_extends hext

end Pages

end Listing

/-! ## Requests for the same fields -/

/-- Two requests that select the same fields, in another order and number. -/
structure Params.Rearranges (p p' : Params) (pages : PageSettings) (names names' : List String) :
    Prop where
  reselects : p.Reselects p'
  fields : (Options.ofParams p pages).fields = some names
  fields' : (Options.ofParams p' pages).fields = some names'
  same : ∀ name, name ∈ names' ↔ name ∈ names

/-- The plan with other names for the same selection. -/
def ListingPlan.rearranged (c : Catalog) (names : List String) (warnings : List Violation)
    (plan : ListingPlan) : ListingPlan :=
  { plan with
    options := { plan.options with fields := some names }
    selection := some (Selection.ofNames c names).1
    warnings := warnings }

section Rearranged

variable {c : Catalog} {names names' : List String} (hsame : ∀ name, name ∈ names' ↔ name ∈ names)

include hsame

theorem Selection.ofNames_unique :
    (ofNames c names').1.columns = (ofNames c names).1.columns ∧
      (ofNames c names').1.relations = (ofNames c names).1.relations ∧
      (ofNames c names').1.virtualFields.Perm (ofNames c names).1.virtualFields :=
  (grants_ofNames c names).unique (grants_ofNames c names') (c.mem_wishes_congr hsame)

/-- The same selection loads the same. -/
theorem Catalog.queryOf_rearranged (entityType : String) (t : Translation) (sort : Option SortKey) :
    c.queryOf entityType t (some (Selection.ofNames c names').1) sort =
      c.queryOf entityType t (some (Selection.ofNames c names).1) sort := by
  obtain ⟨hcolumns, hrelations, hperm⟩ := Selection.ofNames_unique (c := c) hsame
  have hprojection : (Selection.ofNames c names').1.projection c =
      (Selection.ofNames c names).1.projection c := by
    unfold Selection.projection
    rw [hcolumns, hrelations, LoadPlan.foldl_merge_perm c.plan hperm]
  unfold queryOf projectionOf
  dsimp only
  rw [hprojection]

/-- Names make sense or not, in any order and number. -/
theorem Selection.unknown_nil_iff : (ofNames c names').2 = [] ↔ (ofNames c names).2 = [] := by
  rw [ofNames_eq, ofNames_eq, List.map_eq_nil_iff, List.map_eq_nil_iff, List.filter_eq_nil_iff,
    List.filter_eq_nil_iff]
  simp only [hsame]

/-- What is wrong with the names is tolerated, in any order and number. -/
theorem Selection.tolerate_rearranged {s : FilterSettings} {warnings : List Violation}
    (h : s.tolerate (ofNames c names).2 = .ok warnings) :
    ∃ warnings', s.tolerate (ofNames c names').2 = .ok warnings' := by
  rcases Catalog.tolerate_cases s (ofNames c names').2 with hok | ⟨err, -, hstrict, hwrong⟩
  · exact ⟨_, hok⟩
  · have hwrong₀ := (unknown_nil_iff hsame).not.1 hwrong
    unfold FilterSettings.tolerate at h
    rw [if_pos hstrict] at h
    split at h
    · rename_i hnone
      exact absurd hnone hwrong₀
    · cases h
    · cases h

end Rearranged

/-- The options differ in the names. -/
theorem Params.Rearranges.ofParams_eq {p p' : Params} {pages : PageSettings} {names names' : List String}
    (h : p.Rearranges p' pages names names') :
    Options.ofParams p' pages = { Options.ofParams p pages with fields := some names' } := by
  rw [← h.fields']
  have hoption : ∀ name ∈ reservedNames, name ≠ "fields" → p'.get? name = p.get? name :=
    h.reselects.options
  unfold Options.ofParams
  rw [hoption "page" (by decide) (by decide), hoption "per_page" (by decide) (by decide),
    hoption "sort_by" (by decide) (by decide), hoption "sort_direction" (by decide) (by decide),
    hoption "search" (by decide) (by decide)]

/-- **Requests for the same fields come to one plan**, but for their names and what is wrong with them. -/
theorem Catalog.planRequest_rearranged {c : Catalog} {s : Settings} {entityType : String}
    {p p' : Params} {names names' : List String} (h : p.Rearranges p' s.pagination names names')
    {plan : ListingPlan} (hplan : c.planRequest s entityType p = .ok plan) :
    ∃ warnings, c.planRequest s entityType p' = .ok (plan.rearranged c names' warnings) := by
  have htranslate : s.filter.translate c p' = s.filter.translate c p :=
    FilterSettings.translate_congr h.reselects.filters
      (h.reselects.options "search" (by decide) (by decide))
  have hselection : c.selectionOf (Options.ofParams p s.pagination) =
      (some (Selection.ofNames c names).1, (Selection.ofNames c names).2) := by
    unfold selectionOf
    rw [h.fields]
  have hselection' : c.selectionOf { Options.ofParams p s.pagination with fields := some names' } =
      (some (Selection.ofNames c names').1, (Selection.ofNames c names').2) := rfl
  have hsort : c.sortKeyOf { Options.ofParams p s.pagination with fields := some names' } =
      c.sortKeyOf (Options.ofParams p s.pagination) := rfl
  unfold planRequest at hplan ⊢
  rw [htranslate]
  cases ht : s.filter.translate c p with
  | error err =>
    rw [ht] at hplan
    cases hplan
  | ok t =>
    rw [ht] at hplan
    dsimp only at hplan ⊢
    rw [h.ofParams_eq, hselection', hsort]
    rw [hselection] at hplan
    dsimp only at hplan ⊢
    split at hplan
    · cases hplan
    · rename_i warnings hok
      obtain ⟨warnings', hok'⟩ := Selection.tolerate_rearranged h.same hok
      rw [hok']
      dsimp only
      split at hplan
      · cases hplan
      · rename_i sortWarnings _
        cases hplan
        refine ⟨t.rejected.map FilterError.violation ++ warnings' ++ sortWarnings, ?_⟩
        unfold ListingPlan.rearranged
        dsimp only
        rw [queryOf_rearranged h.same]

namespace Listing

section Requests

variable {l : Listing σ Store} {heeds : Bool} {entityType : String} {p : Params}
  {s : ListingState σ Store} {names : List String} {plan : ListingPlan} {table : List Entity}
  (hfields : (Options.ofParams p l.settings.pagination).fields = some names)
  (hrequest : l.engine.catalog.planRequest l.settings entityType p = .ok plan)

include hfields hrequest

omit hrequest in
theorem selection_of_fields (hplan : plan = l.engine.catalog.planOf l.settings entityType p
    (l.settings.filter.collect l.engine.catalog p)) :
    plan.selection = some (Selection.ofNames l.engine.catalog names).1 := by
  rw [hplan]
  unfold Catalog.planOf Catalog.selectionOf
  dsimp only
  rw [hfields]

/-- **Each row of a response shows what is asked for of a row of the table.** -/
theorem data_views (hbackend : l.backend = Store.backend)
    (htable : s.store.table? entityType = some table) (hordered : ∀ e ∈ table, e.Ordered) {r : Response}
    (hok : (l.execute heeds entityType p s).1 = .ok r) :
    ∀ j ∈ r.data, ∃ e ∈ table, ∃ computed, RowView (l.engine.catalog.wishes names) e computed j := by
  obtain ⟨-, hplan⟩ := Catalog.planRequest_ok hrequest
  have hselection := selection_of_fields hfields hplan
  have hfound : s.store.matching plan.query = .ok (plan.admitted table) :=
    Store.matching_eq (by rw [hplan]; rfl) (by rw [hplan]; exact htable)
  obtain ⟨page, s₁, rows, hpage, hfill, rfl⟩ := (execute_ok_iff hrequest).1 hok
  intro j hj
  obtain ⟨r, hr, rfl⟩ := List.mem_map.1 hj
  obtain ⟨e, he, hentity⟩ := filled_stored hbackend hfound hpage hfill r hr
  have hmem : e ∈ table := (List.mem_filter.1 he).1
  have hrow : r = { entity := Store.project plan.query e, computed := r.computed } := by
    rw [← hentity]
  refine ⟨e, hmem, r.computed, ?_⟩
  rw [hrow, render_of_planRequest hrequest, hselection]
  refine Row.render_view (r := { entity := e, computed := r.computed })
    (Selection.grants_ofNames l.engine.catalog names) (hordered e hmem) fun field hfield => ?_
  refine Engine.fillAll_has hfill field ?_ r hr
  unfold selectedFields
  rw [hselection]
  exact hfield

end Requests

/-- What is selected does not decide how rows are found. -/
theorem page_rearranged (l : Listing σ Store) (heeds : Bool) (c : Catalog) (names : List String)
    (warnings : List Violation) (plan : ListingPlan) (s : ListingState σ Store) :
    l.page heeds (plan.rearranged c names warnings) s = l.page heeds plan s := rfl

/-- **Responses show exactly what has been selected.**  A listing over tables in memory, with any caches, any
policy and in any state, has answered a request that selects fields.  Then each object of the response shows
what the names ask for of some row of the table, and nothing else, whatever has been loaded besides: virtual
fields are there without exception, relations and columns as far as the row has them, and the identity.  The
order and the number of the names do not matter, where the virtual fields that they ask for do not matter to
each other. -/
theorem execute_exact {l : Listing σ Store} (rs : List Registration)
    (hcatalog : l.engine.catalog = Catalog.enterAll {} rs) (hbackend : l.backend = Store.backend)
    {heeds : Bool} {entityType : String} {p : Params} {s : ListingState σ Store} {names : List String}
    (hfields : (Options.ofParams p l.settings.pagination).fields = some names) {table : List Entity}
    (htable : s.store.table? entityType = some table) (hordered : ∀ e ∈ table, e.Ordered) {r : Response}
    (hok : (l.execute heeds entityType p s).1 = .ok r) :
    (∀ j ∈ r.data, ∃ e ∈ table, ∃ computed, RowView (l.engine.catalog.wishes names) e computed j) ∧
      ∀ p' names', p.Rearranges p' l.settings.pagination names names' →
        (∀ plan page s₁, l.engine.catalog.planRequest l.settings entityType p = .ok plan →
          l.page heeds plan s = (.ok page, s₁) →
            l.engine.Separable heeds (Selection.ofNames l.engine.catalog names).1.virtualFields
              (Selection.ofNames l.engine.catalog names').1.virtualFields page.rows s₁.engine) →
          ∃ r', (l.execute heeds entityType p' s).1 = .ok r' ∧
            r' = { r with warnings := r'.warnings,
                          pagination := { r.pagination with links := r'.pagination.links } } := by
  have hc : l.engine.catalog.Lawful := by
    rw [hcatalog]
    exact Catalog.Lawful.empty.enterAll rs
  cases hrequest : l.engine.catalog.planRequest l.settings entityType p with
  | error err =>
    rw [execute_refused hrequest] at hok
    cases hok
  | ok plan =>
    refine ⟨data_views hfields hrequest hbackend htable hordered hok, ?_⟩
    intro p' names' hrearranges hseparable
    obtain ⟨-, hplan⟩ := Catalog.planRequest_ok hrequest
    have hselection := selection_of_fields hfields hplan
    have hgrants := Selection.grants_ofNames l.engine.catalog names
    obtain ⟨page, s₁, rows, hpage, hfill, rfl⟩ := (execute_ok_iff hrequest).1 hok
    have hselected : selectedFields plan = (Selection.ofNames l.engine.catalog names).1.virtualFields := by
      unfold selectedFields
      rw [hselection]
    have hregistered := (sufficient_of_planRequest hrequest hc).selected
    rw [hselected] at hfill hregistered
    -- the same rows, and the same fields in another order
    obtain ⟨warnings, hrequest'⟩ := Catalog.planRequest_rearranged hrearranges hrequest
    obtain ⟨hcolumns, hrelations, hperm⟩ :=
      Selection.ofNames_unique (c := l.engine.catalog) hrearranges.same
    obtain ⟨rows', hfill', hentities, hvalues⟩ := (hseparable plan page s₁ rfl hpage).fillAll_perm hc
      hregistered hgrants.virtualFields_nodup hperm hfill
    refine ⟨_, (execute_ok_iff hrequest').2
      ⟨page, s₁, rows', by rw [page_rearranged, hpage], hfill', rfl⟩, ?_⟩
    have hfound : s.store.matching plan.query = .ok (plan.admitted table) :=
      Store.matching_eq (by rw [hplan]; rfl) (by rw [hplan]; exact htable)
    have hviews : ∀ {names : List String} {rows : List Row}, (l.engine.fillAll heeds .useDefault
        (Selection.ofNames l.engine.catalog names).1.virtualFields page.rows s₁.engine).1 = .ok rows →
        ∀ r ∈ rows, RowView (l.engine.catalog.wishes names) r.entity r.computed
          (r.render (some (Selection.ofNames l.engine.catalog names).1)) := by
      intro names rows hfill r hr
      have hstored := filled_stored hbackend hfound hpage hfill r hr
      exact Row.render_view (Selection.grants_ofNames _ _) (hstored.ordered hordered)
        fun field hfield => Engine.fillAll_has hfill field hfield r hr
    have hdata := Row.renders_unique (l.engine.catalog.mem_wishes_congr hrearranges.same) hentities hvalues
      (hviews hfill) (hviews hfill')
    unfold respond ListingPlan.rearranged
    rw [hselection]
    dsimp only
    rw [hdata]
    rfl

section Copies

open Engine (copied manyDigits oneHalf)

/-- A copy of the copy, which is not cached. -/
def recopied : VirtualField where
  name := "recopied"
  fieldType := .decimal
  computation := .coalesce
  computationName := "recopied"
  dependencies := ["copied"]
  operators := FieldType.decimal.operators

/-- A listing of items that remembers copies of their amounts. -/
def copyist : Listing MemoryCache Store where
  engine := { catalog := Catalog.enterAll {} [.virtual copied, .virtual recopied], digest := id,
              cache := some MemoryCache.cache }
  backend := Store.backend

/-- An item with an amount, on which there is a comment. -/
def commented (x : Binary64) : Entity :=
  .mk "item" (.int 1) [("amount", .decimal x), ("notes", .text "none")]
    [("comments", [.mk "comment" (.int 7) [("author", .text "Linda"), ("words", .text "Yes")] []])]

/-- A state with one such item, and without anything remembered. -/
def amounted (x : Binary64) : ListingState MemoryCache Store where
  engine := { cache := .empty 10 }
  store := { tables := [("item", [commented x])] }

/-- Both copies and the words of comments, in one order. -/
def recopiedFirst : Params := ⟨[("fields", "recopied,comments.words,copied")]⟩

/-- The same in another order, and one of them twice. -/
def copiedFirst : Params := ⟨[("fields", "copied,recopied,comments.words,copied")]⟩

/-- A column of a response. -/
def textsOf (name : String) (found : Except Error Response) : Option (List String) :=
  found.toOption.map fun r => (r.column name).map Json.compact

theorem commented_ordered (x : Binary64) : (commented x).Ordered := by
  constructor
  · exact List.pairwise_pair.2 (show "amount" < "notes" by decide)
  · intro r hr e he
    rw [List.mem_singleton.1 hr] at he
    rw [List.mem_singleton.1 he]
    exact List.pairwise_pair.2 (show "author" < "words" by decide)

theorem copies_isBuilt : ∀ r ∈ [Registration.virtual copied, .virtual recopied], r.IsBuilt := by
  intro r hr
  simp only [List.mem_cons, List.not_mem_nil, or_false] at hr
  obtain rfl | rfl := hr
  · exact Engine.copied_isBuilt
  · exact ⟨{ name := "recopied", fieldType := .decimal, computation := some .coalesce,
             dependencies := ["copied"] }, rfl⟩

theorem copyist_isOfInputs : copyist.engine.catalog.IsOfInputs := by
  intro p hp
  have hfields : copyist.engine.catalog.virtualFields = [("copied", copied), ("recopied", recopied)] := rfl
  rw [hfields] at hp
  simp only [List.mem_cons, List.not_mem_nil, or_false] at hp
  rcases hp with rfl | rfl <;> exact ⟨⟨fun _ _ => rfl, fun _ _ => rfl⟩, fun _ _ _ _ => rfl⟩

theorem rearranges_copies : recopiedFirst.Rearranges copiedFirst copyist.settings.pagination
    ["recopied", "comments.words", "copied"] ["copied", "recopied", "comments.words", "copied"] where
  reselects := recopiedFirst.reselects_insert "copied,recopied,comments.words,copied"
  fields := by decide +kernel
  fields' := by decide +kernel
  same := by
    intro name
    simp only [List.mem_cons, List.not_mem_nil, or_false]
    tauto

/-- A look at what the request has come to when the page has been found. -/
def copiesFound {α : Type} (x : Binary64) (look : List Row → EngineState MemoryCache → α) : Option α :=
  match copyist.engine.catalog.planRequest copyist.settings "item" recopiedFirst with
  | .error _ => none
  | .ok plan =>
    match copyist.page false plan (amounted x) with
    | (.error _, _) => none
    | (.ok page, s) => some (look page.rows s.engine)

/-- The amounts that are asked for in both orders. -/
def copyAsks (rows : List Row) (s : EngineState MemoryCache) : List (Option (Int64 × Binary64)) :=
  (copyist.engine.fillAllAsks false ["recopied", "copied"] rows s ++
    copyist.engine.fillAllAsks false ["copied", "recopied"] rows s).map Engine.amount?

/-- Whether the copies can be computed without a cache. -/
def bareCopies (rows : List Row) (s : EngineState MemoryCache) : Bool :=
  (copyist.engine.bare.fillAll false .useDefault ["recopied", "copied"] rows s).1.isOk

/-- One half survives its text, so that the copies do not matter to each other. -/
theorem separable_copies {plan : ListingPlan} {page : Page} {s : ListingState MemoryCache Store}
    (hplan : copyist.engine.catalog.planRequest copyist.settings "item" recopiedFirst = .ok plan)
    (hpage : copyist.page false plan (amounted oneHalf) = (.ok page, s)) :
    copyist.engine.Separable false ["recopied", "copied"] ["copied", "recopied"] page.rows s.engine := by
  have hlook : ∀ {α : Type} (look : List Row → EngineState MemoryCache → α),
      copiesFound oneHalf look = some (look page.rows s.engine) := by
    intro α look
    unfold copiesFound
    rw [hplan]
    dsimp only
    rw [hpage]
  have hengine : s.engine = (amounted oneHalf).engine := by
    have hplain : plan.translation.hasVirtualFilters = false ∧ plan.sort = none := by
      rw [(Catalog.planRequest_ok hplan).2]
      exact ⟨by decide +kernel, by rfl⟩
    have hstill := databasePage_engine (l := copyist) (s := amounted oneHalf) plan.query none
      plan.options .none
    unfold Listing.page at hpage
    rw [if_neg (by rw [hplain.1]; exact Bool.false_ne_true), hplain.2] at hpage
    dsimp only at hpage
    rw [hpage] at hstill
    exact hstill
  -- nothing is asked for but the copy of one half
  have hasks : copiesFound oneHalf copyAsks = some (List.replicate 4 (some (1, oneHalf))) := by
    decide +kernel
  have hbare : copiesFound oneHalf bareCopies = some true := by decide +kernel
  rw [hlook] at hasks hbare
  have htrusted : ∀ cache, copyist.engine.cache = some cache →
      copyist.engine.Trusted (· = Engine.amountAsk 1 oneHalf) (.empty 10) cache := by
    rintro cache ⟨⟩
    refine ⟨MemoryCache.isHonest 10 _, Catalog.noColon_enterAll copies_isBuilt,
      fun a a' ha ha' _ _ => ha.trans ha'.symm, ?_⟩
    rintro a v value rfl hv hanswer
    obtain rfl : copied = v := Option.some.inj hv
    obtain rfl : Value.decimal oneHalf = value :=
      Except.ok.inj ((Engine.answer_amountAsk _ _).symm.trans hanswer)
    exact Engine.isKept_decimal (by decide +kernel)
  refine .recalled copyist_isOfInputs htrusted ?_ ?_ ?_
  · rw [hengine]
    exact Engine.sound_start
  · intro a ha
    have hmem := List.mem_map_of_mem (f := Engine.amount?) ha
    rw [show List.map Engine.amount? _ = _ from Option.some.inj hasks] at hmem
    exact Engine.eq_of_amount? (List.eq_of_mem_replicate hmem)
  · have hok := Option.some.inj hbare
    unfold bareCopies at hok
    cases hrun : (copyist.engine.bare.fillAll false .useDefault ["recopied", "copied"] page.rows
        s.engine).1 with
    | error err =>
      rw [hrun] at hok
      cases hok
    | ok filled => exact ⟨filled, rfl⟩

/-- Copies of one half are there with the words of comments, in either order, though one of them is
remembered. -/
theorem execute_exact_copies :
    copyist.engine.catalog = Catalog.enterAll {} [.virtual copied, .virtual recopied] ∧
    copyist.backend = Store.backend ∧
    (Options.ofParams recopiedFirst copyist.settings.pagination).fields =
      some ["recopied", "comments.words", "copied"] ∧
    (amounted oneHalf).store.table? "item" = some [commented oneHalf] ∧
    (∀ e ∈ [commented oneHalf], e.Ordered) ∧
    ∃ r, (copyist.execute false "item" recopiedFirst (amounted oneHalf)).1 = .ok r ∧
      (r.column "recopied").map Json.compact = ["0.5"] ∧
      (∀ j ∈ r.data, ∃ e ∈ [commented oneHalf], ∃ computed,
        RowView (copyist.engine.catalog.wishes ["recopied", "comments.words", "copied"]) e computed j) ∧
      ∃ r', (copyist.execute false "item" copiedFirst (amounted oneHalf)).1 = .ok r' ∧
        r'.data = r.data := by
  have hordered : ∀ e ∈ [commented oneHalf], e.Ordered := by
    intro e he
    rw [List.mem_singleton.1 he]
    exact commented_ordered oneHalf
  have hcolumn : textsOf "recopied" (copyist.execute false "item" recopiedFirst (amounted oneHalf)).1 =
      some ["0.5"] := by decide +kernel
  refine ⟨rfl, rfl, rearranges_copies.fields, rfl, hordered, ?_⟩
  cases hrun : (copyist.execute false "item" recopiedFirst (amounted oneHalf)).1 with
  | error err =>
    rw [hrun] at hcolumn
    cases hcolumn
  | ok r =>
    rw [hrun] at hcolumn
    obtain ⟨hviews, horders⟩ := execute_exact (l := copyist) [.virtual copied, .virtual recopied] rfl rfl
      rearranges_copies.fields rfl hordered hrun
    have hselected : (Selection.ofNames copyist.engine.catalog
        ["recopied", "comments.words", "copied"]).1.virtualFields = ["recopied", "copied"] := by
      decide +kernel
    have hselected' : (Selection.ofNames copyist.engine.catalog
        ["copied", "recopied", "comments.words", "copied"]).1.virtualFields = ["copied", "recopied"] := by
      decide +kernel
    obtain ⟨r', hrun', hsame⟩ := horders copiedFirst _ rearranges_copies fun plan page s hplan hpage => by
      rw [hselected, hselected']
      exact separable_copies hplan hpage
    exact ⟨r, rfl, Option.some.inj hcolumn, hviews, r', hrun', by rw [hsame]⟩

/-- **The order of the names does matter where a copy is remembered by a text that is rounded**: the field
that is computed first shows the amount, and the other one what is read of its text. -/
theorem execute_inexact :
    (∀ r ∈ [Registration.virtual copied, .virtual recopied], r.IsBuilt) ∧
    copyist.engine.catalog.IsOfInputs ∧
    (∀ e ∈ [commented manyDigits], e.Ordered) ∧
    recopiedFirst.Rearranges copiedFirst copyist.settings.pagination
      ["recopied", "comments.words", "copied"] ["copied", "recopied", "comments.words", "copied"] ∧
    textsOf "recopied" (copyist.execute false "item" recopiedFirst (amounted manyDigits)).1 =
      some ["123456789.12345679"] ∧
    textsOf "recopied" (copyist.execute false "item" copiedFirst (amounted manyDigits)).1 =
      some ["123456789.1234568"] := by
  refine ⟨copies_isBuilt, copyist_isOfInputs, fun e he => ?_, rearranges_copies, by decide +kernel,
    by decide +kernel⟩
  rw [List.mem_singleton.1 he]
  exact commented_ordered manyDigits

end Copies

end Listing

end FieldQuery
