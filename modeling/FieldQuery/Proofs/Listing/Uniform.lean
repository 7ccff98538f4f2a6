import FieldQuery.Proofs.Engine.Keys
import FieldQuery.Proofs.Listing.Bare
import FieldQuery.Proofs.Listing.Forgone
import FieldQuery.Proofs.Listing.Renamed
import FieldQuery.Proofs.Listing.Unhindered

/-!
# Columns and virtual fields are asked for alike

A client does not tell a column from a virtual field with the same values: where a request names the one, it
may name the other, and is shown the same page.  The store filters and sorts by the one, and the listing by
the other, after it has been computed for all rows.

Principal result: `execute_uniform`.  Nothing may stop the second request, no field may look at more than it
declares, and what is cached has to be right: `uniform_fails` has a request for each of these that is shown
something else.
-/

namespace FieldQuery

open Meaning

variable {σ : Type}

/-! ## Requests that nothing stops -/

/-- A request that nothing stops does not stop if it names a column in place of its mirror. -/
theorem ListingPlan.Mirrors.unhindered {l : Listing σ Store} {column field : String}
    {plan plan' : ListingPlan} (hplans : plan.Mirrors column field plan') {table : List Entity}
    (h : plan'.Unhindered l table) : plan.Unhindered l table := by
  have hadmitted : (plan.admitted table).Sublist (plan'.admitted table) :=
    List.monotone_filter_right table fun _ => hplans.admits
  refine ⟨hadmitted.length_le.trans h.count, fun name hname v hv => ?_⟩
  have hample := h.budgets name (hname.imp hplans.wants (hplans.selectedFields ▸ ·)) v hv
  exact hample.subperm (hadmitted.map _).subperm

section Presenting

variable {c : Catalog} {settings : Settings} {entityType : String} {p p' : Params}
  {plan plan' : ListingPlan} (hrequest : c.planRequest settings entityType p = .ok plan)
  (hrequest' : c.planRequest settings entityType p' = .ok plan')
  (hselection : plan'.selection = plan.selection)

include hrequest hrequest' hselection

/-- **Rows that present one row of the table show the same**, if the same is selected. -/
theorem Row.Presents.render_eq {r r' : Row} {e : Entity} (h : r.Presents c plan e)
    (h' : r'.Presents c plan' e) : r'.render plan'.selection = r.render plan.selection := by
  obtain ⟨entity, computed⟩ := r
  obtain ⟨entity', computed'⟩ := r'
  obtain rfl : entity = _ := h.entity
  obtain rfl : entity' = _ := h'.entity
  rw [render_of_planRequest hrequest, render_of_planRequest hrequest', hselection]
  refine Row.render_congr rfl fun s hs field hfield => ?_
  have hselected : field ∈ Listing.selectedFields plan := by
    unfold Listing.selectedFields
    rw [hs]
    exact hfield
  have hselected' : field ∈ Listing.selectedFields plan' := by
    unfold Listing.selectedFields
    rw [hselection, hs]
    exact hfield
  exact (h'.values field hselected').trans (h.values field hselected).symm

/-- Rows that present the same rows of the table show the same. -/
theorem map_render_presents {rows rows' : List Row} {es : List Entity}
    (h : List.Forall₂ (Row.Presents c plan) rows es)
    (h' : List.Forall₂ (Row.Presents c plan') rows' es) :
    rows'.map (Row.render plan'.selection) = rows.map (Row.render plan.selection) := by
  induction h generalizing rows' with
  | nil =>
    cases h'
    rfl
  | cons hfirst _ ih =>
    cases h' with
    | cons hfirst' hrest' =>
      rw [List.map_cons, List.map_cons, hfirst.render_eq hrequest hrequest' hselection hfirst', ih hrest']

end Presenting

namespace Listing

section Served

variable {l : Listing σ Store} (hl : l.Recomputes) {requests : String → Params → Prop}
  {start : ListingState σ Store}
  (hids : ∀ t table, start.store.table? t = some table → (table.map (·.id)).Nodup)
  (htrusted : l.Trusted (l.AsksOf requests) start.engine.cache)
  (habort : l.engine.settings.abortBatchOnFailure = false)
  (hpolicy : l.engine.settings.failurePolicy = .default)

include hl hids htrusted habort hpolicy

/-- A request that nothing stops shows the rows that are listed, whatever has been asked for before. -/
theorem serves_completes {entityType : String} {p : Params} (hp : requests entityType p)
    {plan : ListingPlan} (hrequest : l.engine.catalog.planRequest l.settings entityType p = .ok plan)
    {table : List Entity} (htable : start.store.table? entityType = some table)
    (hfree : plan.Unhindered l table) {s : ListingState σ Store} (hserves : l.Serves requests start s)
    {heeds : Bool} (hcancelled : (heeds && s.engine.cancelled) = false) :
    ∃ r rows, (l.execute heeds entityType p s).1 = .ok r ∧
      r.pagination.total = (plan.listed l.engine.catalog .default plan.strategy table).length ∧
      r.data = rows.map (Row.render plan.selection) ∧
      List.Forall₂ (Row.Presents l.engine.catalog plan) rows
        (((plan.listed l.engine.catalog .default plan.strategy table).drop plan.options.offset).take
          plan.options.perPage) := by
  obtain ⟨htables, hholds⟩ := serves_holds hl hids hserves
  have hfinds := finds_of_planRequest hids hl.lawful hrequest htable
  obtain ⟨r, rows, hok, -, hshows⟩ := execute_completes hl htrusted hfinds
    (@asks_of_planRequest _ l _ { entityType := entityType, params := p }
      (fun a ha => ⟨entityType, p, hp, ha⟩) _ hrequest)
    habort hpolicy hfree hrequest htables hholds hcancelled
  exact ⟨r, rows, hok, hshows⟩

end Served

/-- **A column and a virtual field with its values are asked for alike.**  A request that succeeds shows the
same rows in the same order, of the same total, if it names the mirror in place of the column among its
filters and as its sort key.  Rows without the column, or with null in it, are rows like all others. -/
theorem execute_uniform {l : Listing σ Store} (rs : List Registration)
    (hcatalog : l.engine.catalog = Catalog.enterAll {} rs) (hrs : ∀ r ∈ rs, r.IsBuilt)
    (hofInputs : l.engine.catalog.IsOfInputs) (hbackend : l.backend = Store.backend)
    (habort : l.engine.settings.abortBatchOnFailure = false)
    (hpolicy : l.engine.settings.failurePolicy = .default)
    {start : ListingState σ Store} {requests : String → Params → Prop}
    (hnever : l.NeverCaches requests)
    (hhonest : ∀ cache, l.sortCache = some cache →
      cache.IsHonest EntityId.decodeList? start.engine.cache)
    (hdigests : ∀ a a', l.AsksOf requests a → l.AsksOf requests a' →
      l.engine.digest a.text = l.engine.digest a'.text → a.text = a'.text)
    (hids : ∀ t table, start.store.table? t = some table → (table.map (·.id)).Nodup)
    {f : Field} (hf : KeyMap.get? f.name l.engine.catalog.fields = some f)
    {v : VirtualField} (hv : KeyMap.get? v.name l.engine.catalog.virtualFields = some v)
    (hmirrors : v.Mirrors f) (hrequired : f.name ∉ l.engine.catalog.required)
    (hblocked : l.settings.filter.isBlocked f.name = false ∧
      l.settings.filter.isBlocked v.name = false)
    {entityType : String} {p p' : Params} (hp : requests entityType p) (hp' : requests entityType p')
    (hrenamed : p.Renamed f.name v.name p')
    (hcomparable : ∀ q ∈ [p, p'], ∀ plan table,
      l.engine.catalog.planRequest l.settings entityType q = .ok plan →
      start.store.table? entityType = some table → plan.SortsFirst →
        plan.Comparable l.engine.catalog .default table)
    (hfree : ∀ plan table, l.engine.catalog.planRequest l.settings entityType p' = .ok plan →
      start.store.table? entityType = some table → plan.Unhindered l table)
    {s s' : ListingState σ Store} (hserves : l.Serves requests start s)
    (hserves' : l.Serves requests start s') {heeds heeds' : Bool}
    (hcancelled : (heeds && s.engine.cancelled) = false)
    (hcancelled' : (heeds' && s'.engine.cancelled) = false)
    {r : Response} (hok : (l.execute heeds entityType p s).1 = .ok r) :
    ∃ r', (l.execute heeds' entityType p' s').1 = .ok r' ∧ r'.ids = r.ids ∧ r'.data = r.data ∧
      r'.pagination.total = r.pagination.total := by
  have hc : l.engine.catalog.Lawful := by
    rw [hcatalog]
    exact Catalog.Lawful.empty.enterAll rs
  have hchecked : l.engine.catalog.IsChecked := by
    rw [hcatalog]
    exact Catalog.isChecked_enterAll hrs
  have hl : l.bare.Recomputes := ⟨hc, hofInputs, hbackend, rfl⟩
  have htrusted : l.bare.Trusted (l.bare.AsksOf requests) start.engine.cache :=
    trusted_asksOf hhonest hdigests
  have hbare := serves_bare hc hnever hserves
  have hbare' := serves_bare hc hnever hserves'
  -- values are not cached for either request
  rw [← execute_bare hc hnever hp] at hok
  rw [← execute_bare hc hnever hp']
  cases hrequest : l.engine.catalog.planRequest l.settings entityType p with
  | error err =>
    rw [execute_refused (l := l.bare) hrequest] at hok
    cases hok
  | ok plan =>
    obtain ⟨hrequest', hplans⟩ := Catalog.planRequest_renamed hc hf hv hmirrors hrenamed
      (notMem_reservedNames (hchecked.fields _ (KeyMap.mem_of_get? hf)))
      (notMem_reservedNames (hchecked.virtualFields _ (KeyMap.mem_of_get? hv)))
      hblocked.1 hblocked.2 hrequired hrequest
    generalize l.engine.catalog.planOf l.settings entityType p' _ = plan' at hrequest' hplans
    obtain ⟨table, htable⟩ := table_of_execute hl.backend hrequest hok
    have htable : start.store.table? entityType = some table := by
      rw [← htable]
      unfold Store.table?
      rw [(serves_holds hl hids hbare).1]
    have hfree' : plan'.Unhindered l.bare table :=
      ⟨(hfree plan' table hrequest' htable).count, (hfree plan' table hrequest' htable).budgets⟩
    obtain ⟨r₀, rows, hok₀, htotal, hdata, hrows⟩ := serves_completes hl hids htrusted habort hpolicy hp
      hrequest htable (hplans.unhindered hfree') hbare hcancelled
    obtain ⟨r', rows', hok', htotal', hdata', hrows'⟩ := serves_completes hl hids htrusted habort hpolicy
      hp' hrequest' htable hfree' hbare' hcancelled'
    obtain rfl : r₀ = r := Except.ok.inj (hok₀.symm.trans hok)
    have hlisted : plan'.listed l.bare.engine.catalog .default plan'.strategy table =
        plan.listed l.bare.engine.catalog .default plan.strategy table :=
      listed_mirrors hc hf hv hmirrors hplans
        (hcomparable p List.mem_cons_self plan table hrequest htable)
        (hcomparable p' (List.mem_cons_of_mem _ List.mem_cons_self) plan' table hrequest' htable)
    rw [hlisted] at htotal' hrows'
    rw [hplans.offset, hplans.perPage] at hrows'
    have hdata : r'.data = r₀.data := by
      rw [hdata', hdata]
      exact map_render_presents hrequest hrequest' hplans.selection hrows hrows'
    refine ⟨r', hok', ?_, hdata, htotal'.trans htotal.symm⟩
    unfold Response.ids
    rw [hdata]

section Tallied

/-- The counts of items, by which they may be sorted. -/
def countable : Field where
  name := "count"
  fieldType := .integer
  operators := FieldType.integer.operators
  sortable := true

/-- Amounts of items, by which they may be sorted. -/
def amountable : Field where
  name := "amount"
  fieldType := .decimal
  operators := FieldType.decimal.operators
  sortable := true

/-- The counts of items as a virtual field. -/
def tally : VirtualField where
  name := "tally"
  fieldType := .integer
  computation := .coalesce
  computationName := "coalesce"
  dependencies := ["count"]
  operators := FieldType.integer.operators
  sortable := true

/-- A listing of items that caches values and orders. -/
def tallying (others : List VirtualField) (settings : ComputationSettings) : Listing MemoryCache Store where
  engine := { catalog := Catalog.enterAll {}
                (.field countable :: .field amountable :: .virtual tally :: others.map .virtual)
              settings := settings
              digest := id
              cache := some MemoryCache.cache }
  backend := Store.backend
  sortCache := some MemoryCache.cache

/-- A store with items, and nothing cached. -/
def stocked (es : List Entity) : ListingState MemoryCache Store where
  engine := { cache := .empty 10 }
  store := { tables := [("item", es)] }

/-- Items, of which one has no count, and that of another one is null. -/
def tallied : List Entity :=
  [Engine.counted 1 6, .mk "item" (.int 2) [] [], Engine.counted 3 8,
    .mk "item" (.int 4) [("count", .null)] [], Engine.counted 5 2, Engine.counted 6 8]

theorem tally_mirrors : tally.Mirrors countable := ⟨rfl, rfl, rfl, rfl, rfl, rfl, rfl, rfl⟩

theorem tallying_isBuilt :
    ∀ r ∈ [Registration.field countable, .field amountable, .virtual tally], r.IsBuilt := by
  intro r hr
  simp only [List.mem_cons, List.not_mem_nil, or_false] at hr
  obtain rfl | rfl | rfl := hr
  · exact ⟨{ name := "count", fieldType := .integer, sortable := true }, rfl⟩
  · exact ⟨{ name := "amount", fieldType := .decimal, sortable := true }, rfl⟩
  · exact ⟨{ name := "tally", fieldType := .integer, computation := some .coalesce
             computationName := some "coalesce", dependencies := ["count"], sortable := true }, rfl⟩

/-- The only virtual field. -/
theorem tallying_field {field : String} {v : VirtualField}
    (hv : KeyMap.get? field (tallying [] {}).engine.catalog.virtualFields = some v) :
    (field, v) = ("tally", tally) := by
  have hfields : (tallying [] {}).engine.catalog.virtualFields = [("tally", tally)] := rfl
  have hmem := KeyMap.mem_of_get? hv
  rw [hfields] at hmem
  exact List.mem_singleton.1 hmem

theorem tallying_inputs : (tallying [] {}).engine.catalog.IsOfInputs := by
  intro p hp
  have hfields : (tallying [] {}).engine.catalog.virtualFields = [("tally", tally)] := rfl
  rw [hfields] at hp
  obtain rfl := List.mem_singleton.1 hp
  exact ⟨⟨fun _ _ => rfl, fun _ _ => rfl⟩, fun _ _ _ _ => rfl⟩

theorem tallying_neverCaches (requests : String → Params → Prop) :
    (tallying [] {}).NeverCaches requests := by
  intro _ _ _ _ _ _ _ _ _ v hv
  obtain ⟨-, rfl⟩ := Prod.mk.inj (tallying_field hv)
  exact .inr rfl

theorem tallied_unhindered (plan : ListingPlan) : plan.Unhindered (tallying [] {}) tallied where
  count := (List.length_filter_le _ _).trans (by decide)
  budgets := by
    intro field _ v hv
    obtain ⟨rfl, rfl⟩ := Prod.mk.inj (tallying_field hv)
    have hall : (Budget.ofField tally (tallying [] {}).engine.settings).Covers
        (Work.total (Engine.entityWork (tallying [] {}).engine.catalog .default tally)
          (tallied.map Entity.whole)) := by
      constructor <;> decide +kernel
    exact hall.subperm (List.filter_sublist.map _).subperm

/-- Five items, those with the largest counts first. -/
def fiveBy (name : String) : Params :=
  ⟨[("sort_by", name), ("sort_direction", "desc"), ("per_page", "5")]⟩

/-- Items without a count. -/
def lacking (name : String) : Params := ⟨[(name, "null"), ("sort_by", name)]⟩

theorem fiveBy_renamed : (fiveBy "count").Renamed "count" "tally" (fiveBy "tally") :=
  .cons (.sort (by decide +kernel) (by decide +kernel)) (.cons (.same _) (.cons (.same _) .nil))

theorem lacking_renamed : (lacking "count").Renamed "count" "tally" (lacking "tally") :=
  .cons (.key _) (.cons (.sort (by decide +kernel) (by decide +kernel)) .nil)

/-- The identities that a response shows, if there is one, and the total. -/
def rowsShown (found : Except Error Response) : Option (List String × Nat) :=
  found.toOption.map fun r => (r.ids.map Json.compact, r.pagination.total)

theorem ok_of_rowsShown {found : Except Error Response} {ids : List String} {total : Nat}
    (h : rowsShown found = some (ids, total)) :
    ∃ r, found = .ok r ∧ r.ids.map Json.compact = ids ∧ r.pagination.total = total := by
  cases found with
  | error e => cases h
  | ok r =>
    obtain ⟨hids, htotal⟩ := Prod.mk.inj (Option.some.inj h)
    exact ⟨r, rfl, hids, htotal⟩

/-- Items are sorted by their counts and by the mirror of these alike, and those without a count come last.
They lack a count and its mirror alike. -/
theorem execute_tallied :
    (tallied.map (·.id)).Nodup ∧
    (∃ r r', ((tallying [] {}).execute false "item" (fiveBy "count") (stocked tallied)).1 = .ok r ∧
      r.ids.map Json.compact = ["3", "6", "1", "5", "2"] ∧ r.pagination.total = 6 ∧
      ((tallying [] {}).execute false "item" (fiveBy "tally") (stocked tallied)).1 = .ok r' ∧
      r'.ids = r.ids ∧ r'.data = r.data ∧ r'.pagination.total = r.pagination.total) ∧
    ∃ r r', ((tallying [] {}).execute false "item" (lacking "count") (stocked tallied)).1 = .ok r ∧
      r.ids.map Json.compact = ["2", "4"] ∧ r.pagination.total = 2 ∧
      ((tallying [] {}).execute false "item" (lacking "tally") (stocked tallied)).1 = .ok r' ∧
      r'.ids = r.ids ∧ r'.data = r.data ∧ r'.pagination.total = r.pagination.total := by
  have hids : ∀ t table, (stocked tallied).store.table? t = some table → (table.map (·.id)).Nodup := by
    intro t table htable
    have hitems : (t, table) = ("item", tallied) := List.mem_singleton.1 (KeyMap.mem_of_get? htable)
    rw [(Prod.mk.inj hitems).2]
    decide
  have huniform : ∀ p p' : Params, p.Renamed "count" "tally" p' →
      (∀ q ∈ [p, p'], ((tallying [] {}).engine.catalog.planRequest (tallying [] {}).settings "item"
        q).toOption.all (fun plan => !decide plan.SortsFirst) = true) →
      ∀ r, ((tallying [] {}).execute false "item" p (stocked tallied)).1 = .ok r →
        ∃ r', ((tallying [] {}).execute false "item" p' (stocked tallied)).1 = .ok r' ∧ r'.ids = r.ids ∧
          r'.data = r.data ∧ r'.pagination.total = r.pagination.total := by
    intro p p' hrenamed hsorts r hok
    have hnever := tallying_neverCaches fun _ _ => True
    refine execute_uniform [.field countable, .field amountable, .virtual tally] rfl tallying_isBuilt
      tallying_inputs rfl rfl rfl hnever ?_ (fun _ _ _ _ h => h) hids (f := countable) rfl (v := tally)
      rfl tally_mirrors (by decide) ⟨rfl, rfl⟩ trivial trivial hrenamed ?_ ?_ .start .start rfl rfl hok
    · rintro cache ⟨⟩
      exact MemoryCache.isHonest 10 _
    · intro q hq plan table hplan htable hfirst
      have hnot := hsorts q hq
      rw [hplan] at hnot
      simp [Except.toOption, hfirst] at hnot
    · intro plan table hplan htable
      obtain rfl : tallied = table := Option.some.inj htable
      exact tallied_unhindered plan
  refine ⟨by decide, ?_, ?_⟩
  · obtain ⟨r, hr, hrows, htotal⟩ := ok_of_rowsShown (show rowsShown ((tallying [] {}).execute false
      "item" (fiveBy "count") (stocked tallied)).1 = some (["3", "6", "1", "5", "2"], 6) by decide +kernel)
    obtain ⟨r', hr'⟩ := huniform _ _ fiveBy_renamed (by decide +kernel) r hr
    exact ⟨r, r', hr, hrows, htotal, hr'⟩
  · obtain ⟨r, hr, hrows, htotal⟩ := ok_of_rowsShown (show rowsShown ((tallying [] {}).execute false
      "item" (lacking "count") (stocked tallied)).1 = some (["2", "4"], 2) by decide +kernel)
    obtain ⟨r', hr'⟩ := huniform _ _ lacking_renamed (by decide +kernel) r hr
    exact ⟨r, r', hr, hrows, htotal, hr'⟩

/-- A request for items that is shown something else if it names the mirror of the counts, although neither
the column nor the mirror is treated in a special way, failures count for the default, and the items are
different and not too many. -/
structure Differs (l : Listing MemoryCache Store) (s : ListingState MemoryCache Store) (p p' : Params) :
    Prop where
  policy : l.engine.settings.failurePolicy = .default
  required : "count" ∉ l.engine.catalog.required
  blocked : l.settings.filter.blockedFields = []
  ids : (((s.store.table? "item").getD []).map (·.id)).Nodup
  count : ((s.store.table? "item").getD []).length ≤ l.settings.sort.maxSortRecords
  renamed : p.Renamed "count" "tally" p'
  differs : ∃ r, (l.execute false "item" p s).1 = .ok r ∧
    ¬ ∃ r', (l.execute false "item" p' s).1 = .ok r' ∧ r'.ids = r.ids ∧
      r'.pagination.total = r.pagination.total

/-- Where other rows are shown, there is no response like the first one. -/
theorem differs_of_rowsShown {found found' : Except Error Response}
    (h : (rowsShown found).isSome = true) (hne : rowsShown found' ≠ rowsShown found) :
    ∃ r, found = .ok r ∧
      ¬ ∃ r', found' = .ok r' ∧ r'.ids = r.ids ∧ r'.pagination.total = r.pagination.total := by
  obtain ⟨⟨ids, total⟩, hshown⟩ := Option.isSome_iff_exists.1 h
  obtain ⟨r, rfl, -, -⟩ := ok_of_rowsShown hshown
  refine ⟨r, rfl, ?_⟩
  rintro ⟨r', rfl, hids, htotal⟩
  refine hne ?_
  unfold rowsShown Except.toOption
  rw [Option.map_some, Option.map_some, hids, htotal]

/-- Items with a count above one of which something has been loaded. -/
def seen (name : String) : Params := ⟨[(name, ">1"), ("loaded", ">0"), ("fields", "loaded")]⟩

/-- Items that are named by their numeral, with a count above one. -/
def namedOne (name : String) : Params := ⟨[("named", "1"), (name, ">1")]⟩

/-- A number and its numeral. -/
def ones : List Entity :=
  [.mk "item" (.int 1) [("count", .int 0)] [], .mk "item" (.text "1") [("count", .int 5)] []]

/-- The items after an order by their counts has been cached, with one more. -/
def restocked : ListingState MemoryCache Store :=
  let s := ((tallying [] {}).execute false "item" (fiveBy "tally") (stocked tallied)).2
  { s with store := s.store.insert (Engine.counted 7 9) }

/-- Items with a count above one by their amounts. -/
def byAmount (name : String) : Params := ⟨[(name, ">1"), ("sort_by", "amount")]⟩

/-- Items with amounts that are in no order: the second one is equal to the first and to the third one. -/
def amounts : List Entity :=
  [.mk "item" (.int 1) [("amount", .int 9007199254740993), ("count", .int 5)] [],
    .mk "item" (.int 2) [("amount", .decimal (.ofScientific false 9007199254740992 0)), ("count", .int 0)] [],
    .mk "item" (.int 3) [("amount", .int 9007199254740992), ("count", .int 5)] []]

/-- A mirror is not asked for like its column where an item without the column ends the batch, where a field
looks at more than it declares, where a value is cached for another item, where an old order is cached, or
where the keys to sort by are in no order. -/
theorem uniform_fails :
    tally.Mirrors countable ∧ tally.cacheable = false ∧
    (tallying [] { abortBatchOnFailure := true }).Differs (stocked tallied) (fiveBy "count")
      (fiveBy "tally") ∧
    (tallying [loadedColumns] {}).Differs (stocked tallied) (seen "count") (seen "tally") ∧
    (tallying [Engine.named] {}).Differs (stocked ones) (namedOne "count") (namedOne "tally") ∧
    (tallying [] {}).Differs restocked (fiveBy "count") (fiveBy "tally") ∧
    (tallying [] {}).Differs (stocked amounts) (byAmount "count") (byAmount "tally") := by
  refine ⟨tally_mirrors, rfl, ?aborted, ?looked, ?shared, ?old, ?unordered⟩
  case aborted =>
    exact ⟨rfl, by decide, rfl, by decide, by decide, fiveBy_renamed,
      differs_of_rowsShown (by decide +kernel) (by decide +kernel)⟩
  case looked =>
    exact ⟨rfl, by decide, rfl, by decide, by decide,
      .cons (.key _) (.cons (.same _) (.cons (.same _) .nil)),
      differs_of_rowsShown (by decide +kernel) (by decide +kernel)⟩
  case shared =>
    exact ⟨rfl, by decide, rfl, by decide, by decide, .cons (.same _) (.cons (.key _) .nil),
      differs_of_rowsShown (by decide +kernel) (by decide +kernel)⟩
  case old =>
    exact ⟨rfl, by decide, rfl, by decide +kernel, by decide +kernel, fiveBy_renamed,
      differs_of_rowsShown (by decide +kernel) (by decide +kernel)⟩
  case unordered =>
    exact ⟨rfl, by decide, rfl, by decide, by decide, .cons (.key _) (.cons (.same _) .nil),
      differs_of_rowsShown (by decide +kernel) (by decide +kernel)⟩

end Tallied

end Listing

end FieldQuery
