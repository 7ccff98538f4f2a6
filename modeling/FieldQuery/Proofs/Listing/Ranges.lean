import FieldQuery.Proofs.Listing.Twins
import FieldQuery.Proofs.Value.Bounds

/-!
# Ranges of a sorted listing

A listing that is sorted by a column shows stored rows in the order in which the store sorts them;
clauses on virtual fields and pages leave rows out, and computed values are added, but no step moves
a row. So what the order of sorting says of two values holds of every two rows of a response, and a
range of the column cuts a block out of it where filters and sorting agree.

* `page_sublist` — what a page leaves of the rows;
* `arrange_agrees` — two rows in the order of the store agree on every bound.

Principal results: `execute_agreesOnBounds`; `execute_disagrees` — texts of instants with offsets.
-/

namespace FieldQuery

/-! ## Rows in the order of the store -/

/-- What has a place among the values of filters has one among sort keys. -/
theorem Value.sortsLast_of_compare? {v x : Value} (h : (v.compare? x).isSome = true) :
    v.sortsLast = false := by
  cases v with
  | null => cases h
  | decimal a =>
    cases x with
    | int n => exact (Binary64.compare?_isSome.1 h).1
    | decimal b => exact (Binary64.compare?_isSome.1 h).1
    | _ => cases h
  | _ => rfl

theorem Value.sortsLast_of_datedAs {layout : Option Nat} {v : Value} (h : v.DatedAs layout) :
    v.sortsLast = false := by
  cases v with
  | null => cases layout <;> cases h
  | decimal a => cases layout <;> cases h
  | _ => rfl

section Arranged

variable {ints : Int64 → Prop} {decimals : Binary64 → Prop} {f : String} {rows : List Entity}
  (hfree : ¬ Value.Conflict ints decimals)
  (hwithin : ∀ e ∈ rows, ∀ v, e.attribute? f = some v → v.Within ints decimals)

include hfree hwithin

/-- Of two rows that a store has sorted, the values are in the order of sorting, unless one of them
is of those that come last anyway. -/
theorem Store.arrange_inOrder :
    (arrange (some ⟨f, .ascending⟩) rows).Pairwise fun a b => ∀ v w,
      a.attribute? f = some v → b.attribute? f = some w → v.sortsLast = false →
      w.sortsLast = false → v.sortCompare w ≠ .gt := by
  have hpreorder : PreorderOn Value.sortCompare
      (Compared fun k => ∃ e ∈ rows, e.attribute? f = k) := by
    refine (Value.sortCompare_preorderOn hfree).mono ?_
    rintro v ⟨⟨e, he, hv⟩, -⟩
    exact hwithin e he v hv
  have hsorted : StablySorted (compareRows ⟨f, .ascending⟩) rows
      (arrange (some ⟨f, .ascending⟩) rows) := arrange_stablySorted hpreorder
  refine hsorted.sorted.imp ?_
  intro a b hab v w hv hw hvlast hwlast
  have hkey : ∀ {u : Value}, u.sortsLast = false → sortKey? (some u) = some u :=
    fun hu => sortKey?_eq_some_iff.2 ⟨rfl, hu⟩
  unfold compareRows compareKeys at hab
  rwa [hv, hw, hkey hvlast, hkey hwlast] at hab

/-- **Two rows that a store has sorted agree on every bound exactly if their instants are in order**,
and so where the instants are written in one way. -/
theorem Store.arrange_agrees :
    (arrange (some ⟨f, .ascending⟩) rows).Pairwise fun a b => ∀ v w,
      a.attribute? f = some v → b.attribute? f = some w →
      ((∀ x : Value, x.IsBound → x.Within ints decimals → (v.compare? x).isSome = true →
          (w.compare? x).isSome = true → Value.AgreesOn x v w) ↔ Value.InOrder v w) ∧
        ∀ layout, v.DatedAs layout → w.DatedAs layout → Value.InOrder v w := by
  have hmem : ∀ e ∈ arrange (some ⟨f, .ascending⟩) rows, e ∈ rows :=
    fun e he => (arrange_perm _ rows).mem_iff.1 he
  refine List.Pairwise.imp_of_mem ?_ (arrange_inOrder hfree hwithin)
  intro a b ha hb hab v w hv hw
  have hle := hab v w hv hw
  constructor
  · refine Value.agreesOn_iff_inOrder hfree (hwithin a (hmem a ha) v hv)
      (hwithin b (hmem b hb) w hw) ?_
    rintro ⟨x, hx⟩ ⟨y, hy⟩
    exact hle (Value.sortsLast_of_compare? hx) (Value.sortsLast_of_compare? hy)
  · intro layout hv' hw'
    refine Value.inOrder_of_datedAs hv' hw' (hle ?_ ?_)
    · exact Value.sortsLast_of_datedAs hv'
    · exact Value.sortsLast_of_datedAs hw'

end Arranged

/-! ## No step moves a row -/

namespace Listing

variable {σ : Type} {l : Listing σ Store} (hbackend : l.backend = Store.backend) {heeds : Bool}
  {plan : ListingPlan} {f : String} (hsort : plan.sort = some (.column f))

include hbackend hsort

/-- **A page sorted by a column shows rows as the store arranges them.** -/
theorem page_sublist {s s' : ListingState σ Store} {admitted : List Entity}
    (hfound : s.store.matching plan.query = .ok admitted) {shown : Page}
    (h : l.page heeds plan s = (.ok shown, s')) :
    (shown.rows.map (·.entity)).Sublist
      ((Store.arrange (some ⟨f, plan.options.direction⟩) admitted).map
        (Store.project plan.query)) := by
  unfold page at h
  rw [hsort] at h
  split at h
  · rw [filteredPage_eq hbackend hfound, hsort] at h
    split at h
    · cases h
    · split at h
      · cases h
      · rename_i kept engine hnarrow
        have hkept := Engine.narrow_sublist (congrArg Prod.fst hnarrow)
        rw [entities_loaded] at hkept
        cases h
        exact ((pageOf_sublist plan.options kept).map _).trans hkept
  · dsimp only at h
    rw [databasePage_eq hbackend hfound] at h
    cases h
    have hpage := (pageOf_sublist plan.options
      ((Store.arrange (some ⟨f, plan.options.direction⟩) admitted).map fun e =>
        ({ entity := Store.project plan.query e } : Row))).map (·.entity)
    rwa [entities_loaded] at hpage

omit hsort in
/-- **Ranges of a sorted listing.** In the rows of a response that is sorted by a column in ascending
order, a later row satisfies the lower bounds of an earlier one, and the earlier one the upper bounds
of the later one, whatever bound of an ordered type both can be compared with: for numbers always, as
long as no two different integers among the values and the bounds are rounded to one decimal among
them, and for instants exactly if the two are sorted as instants, which is so if the column has no
texts of instants, or has them in one form at universal time. -/
theorem execute_agreesOnBounds {entityType : String} {p : Params} {table : List Entity}
    (hrequest : l.engine.catalog.planRequest l.settings entityType p = .ok plan)
    (hsort : plan.sort = some (.column f)) (hdirection : plan.options.direction = .ascending)
    {s : ListingState σ Store} (htable : s.store.table? entityType = some table)
    {ints : Int64 → Prop} {decimals : Binary64 → Prop} (hfree : ¬ Value.Conflict ints decimals)
    (hwithin : ∀ e ∈ plan.admitted table, ∀ v, e.attribute? f = some v → v.Within ints decimals)
    {r : Response} (hr : (l.execute heeds entityType p s).1 = .ok r) :
    ∃ (rows : List Row) (listed : List Entity), r.data = rows.map (Row.render plan.selection) ∧
      rows.map (·.entity) = listed.map (Store.project plan.query) ∧
      listed.Sublist (Store.arrange (some ⟨f, .ascending⟩) (plan.admitted table)) ∧
      listed.Pairwise fun a b => ∀ v w, a.attribute? f = some v → b.attribute? f = some w →
        ((∀ x : Value, x.IsBound → x.Within ints decimals → (v.compare? x).isSome = true →
            (w.compare? x).isSome = true → Value.AgreesOn x v w) ↔ Value.InOrder v w) ∧
          ∀ layout, v.DatedAs layout → w.DatedAs layout → Value.InOrder v w := by
  obtain ⟨-, hplan⟩ := Catalog.planRequest_ok hrequest
  have htype : plan.query.entityType = entityType := by rw [hplan]; rfl
  have hpredicates : plan.query.predicates = plan.translation.predicates := by rw [hplan]; rfl
  have hfound : s.store.matching plan.query = .ok (plan.admitted table) :=
    Store.matching_eq hpredicates (by rw [htype]; exact htable)
  obtain ⟨shown, s', rows, hpage, hfill, rfl⟩ := (execute_ok_iff hrequest).1 hr
  have hrows := fillAll_useDefault_ok heeds hfill
  have hsublist := page_sublist hbackend hsort hfound hpage
  rw [← hrows, hdirection] at hsublist
  obtain ⟨listed, hlisted, heq⟩ := List.sublist_map_iff.1 hsublist
  exact ⟨rows, listed, rfl, heq, hlisted, (Store.arrange_agrees hfree hwithin).sublist hlisted⟩

section Times

omit hbackend hsort

/-- When something happens, in a column to sort by. -/
def atColumn : Field where
  name := "at"
  fieldType := .datetime
  operators := FieldType.datetime.operators
  sortable := true

/-- A listing of events. -/
def events : Listing Unit Store where
  engine := { catalog := Catalog.enterAll {} [.field atColumn]
              digest := id }
  backend := Store.backend

/-- Events by their times. -/
def byTime : Params := ⟨[("sort_by", "at")]⟩

/-- The records of events at the given times, counted from one. -/
def eventRecords (times : List String) : Json :=
  .object [("event", .array (times.zipIdx.map fun (time, i) =>
    .object [("id", .int (i + 1)), ("at", .text time)]))]

/-- The rows of these events. -/
def eventRows (times : List String) : List Entity :=
  times.zipIdx.map fun (time, i) =>
    ⟨"event", .int (Int64.ofNat (i + 1)),
      [("at", .text time), ("id", .int (Int64.ofNat (i + 1)))], []⟩

/-- The store with these rows. -/
def eventState (times : List String) : ListingState Unit Store where
  engine := { cache := () }
  store := { tables := [("event", eventRows times)] }

/-- What a listing of events by their times comes to. -/
def byTimePlan : ListingPlan :=
  events.engine.catalog.planOf events.settings "event" byTime
    (events.settings.filter.collect events.engine.catalog byTime)

/-- Times at universal time, not in their order. -/
def zuluTimes : List String :=
  ["2024-01-01T00:00:00Z", "2023-12-31T23:30:00Z", "2023-12-31T23:59:60Z"]

/-- Times in one form are sorted as instants, a leap second among them. -/
theorem execute_agreesOnTimes :
    Store.ofJson (eventRecords zuluTimes) = .ok (eventState zuluTimes).store ∧
    ∃ r, (events.execute false "event" byTime (eventState zuluTimes)).1 = .ok r ∧
      r.ids = [.int 2, .int 3, .int 1] ∧
      ∃ (rows : List Row) (listed : List Entity), r.data = rows.map (Row.render none) ∧
        rows.map (·.entity) = listed.map (Store.project byTimePlan.query) ∧
        listed.Pairwise fun a b => ∀ v w, a.attribute? "at" = some v → b.attribute? "at" = some w →
          ∀ x : Value, x.IsBound → x.Within (fun _ => True) (fun _ => False) →
            (v.compare? x).isSome = true → (w.compare? x).isSome = true → Value.AgreesOn x v w := by
  have hloaded : Store.ofJson (eventRecords zuluTimes) = .ok (eventState zuluTimes).store := by
    with_unfolding_all rfl
  have hrequest : events.engine.catalog.planRequest events.settings "event" byTime =
      .ok byTimePlan := by with_unfolding_all rfl
  have hzulu : ∀ e ∈ eventRows zuluTimes, ∀ v, e.attribute? "at" = some v →
      v.DatedAs (some 20) := by
    have hforms : ∀ time ∈ zuluTimes, Time.Zulu 20 time.toList := by
      unfold Time.Zulu
      decide
    intro e he v hv
    obtain ⟨⟨time, i⟩, htime, rfl⟩ := List.mem_map.1 he
    obtain rfl : Value.text time = v := Option.some.inj hv
    exact hforms time (List.fst_mem_of_mem_zipIdx htime)
  have hids : (events.execute false "event" byTime (eventState zuluTimes)).1.toOption.map
      (·.ids) = some [.int 2, .int 3, .int 1] := by with_unfolding_all rfl
  refine ⟨hloaded, ?_⟩
  cases hr : (events.execute false "event" byTime (eventState zuluTimes)).1 with
  | error e =>
    rw [hr] at hids
    cases hids
  | ok r =>
    rw [hr] at hids
    refine ⟨r, rfl, Option.some.inj hids, ?_⟩
    have hfree : ¬ Value.Conflict (fun _ => True) (fun _ => False) := by
      rintro ⟨_, _, _, _, _, hfalse, _⟩
      exact hfalse
    have hsort : byTimePlan.sort = some (.column "at") := by with_unfolding_all rfl
    have htable : (eventState zuluTimes).store.table? "event" = some (eventRows zuluTimes) := rfl
    have hwithin : ∀ e ∈ byTimePlan.admitted (eventRows zuluTimes), ∀ v,
        e.attribute? "at" = some v → v.Within (fun _ => True) (fun _ => False) := by
      intro e he v hv
      have hdated := hzulu e (List.mem_filter.1 he).1 v hv
      cases v with
      | text s => trivial
      | _ => cases hdated
    obtain ⟨rows, listed, hdata, hentities, hsublist, hpairwise⟩ :=
      execute_agreesOnBounds rfl hrequest hsort (by with_unfolding_all rfl) htable hfree hwithin hr
    refine ⟨rows, listed, hdata, hentities, ?_⟩
    refine List.Pairwise.imp_of_mem ?_ hpairwise
    intro a b ha hb hab v w hv hw
    have hmem : ∀ e ∈ listed, e ∈ eventRows zuluTimes := by
      intro e he
      exact (List.mem_filter.1 ((Store.arrange_perm _ _).mem_iff.1 (hsublist.subset he))).1
    obtain ⟨hiff, hinOrder⟩ := hab v w hv hw
    exact hiff.2 (hinOrder (some 20) (hzulu a (hmem a ha) v hv) (hzulu b (hmem b hb) w hw))

/-- A time with an offset, and a later one at universal time. -/
def offsetTimes : List String := ["2024-01-01T00:00:00+05:00", "2023-12-31T23:30:00Z"]

/-- Ranges need not be blocks: sorted as a text, the earlier of two times comes last, and a bound
between them holds of the row before it alone. -/
theorem execute_disagrees : ∃ x,
    Store.ofJson (eventRecords offsetTimes) = .ok (eventState offsetTimes).store ∧
    events.settings.filter.coerce "at" .datetime "2023-12-31T20:00:00Z" none = .ok x ∧
    (events.execute false "event" byTime (eventState offsetTimes)).1.toOption.map
      (·.column "at") = some [.text "2023-12-31T23:30:00Z", .text "2024-01-01T00:00:00+05:00"] ∧
    ((Value.text "2023-12-31T23:30:00Z").compare? x).isSome = true ∧
    ((Value.text "2024-01-01T00:00:00+05:00").compare? x).isSome = true ∧
    ¬ Value.AgreesOn x (.text "2023-12-31T23:30:00Z") (.text "2024-01-01T00:00:00+05:00") := by
  refine ⟨_, by with_unfolding_all rfl, by with_unfolding_all rfl, by with_unfolding_all rfl,
    by decide +kernel, by decide +kernel, ?_⟩
  intro h
  have hlater := h.1 (by decide +kernel)
  revert hlater
  decide +kernel

end Times

end Listing

end FieldQuery
