import FieldQuery.Proofs.Listing.Plan

/-!
# What is collected from the filters of a request

Each filter is read by itself, and comes to a clause or to a fault.

* `Except.fault?` — the error of a result that is one;
* `active_collect`, `rejected_collect`, `eager_collect`, `search_collect` — the parts of a translation
  by themselves;
* `collect_of_active` — clauses and the search determine a translation but for its faults.
-/

namespace FieldQuery

/-- The error of a result that is one. -/
def Except.fault? {ε α : Type} : Except ε α → Option ε
  | .ok _ => none
  | .error e => some e

namespace FilterSettings

variable (s : FilterSettings) (c : Catalog) (p : Params)

theorem active_collect :
    (s.collect c p).active = p.filters.filterMap fun pair => (s.clause c pair.1 pair.2).toOption := by
  unfold collect
  dsimp only
  rw [List.filterMap_map]
  refine List.filterMap_congr fun pair _ => ?_
  dsimp only [Function.comp_apply]
  cases s.clause c pair.1 pair.2 <;> rfl

theorem rejected_collect :
    (s.collect c p).rejected =
      p.filters.filterMap fun pair => Except.fault? (s.clause c pair.1 pair.2) := by
  unfold collect
  dsimp only
  rw [List.filterMap_map]
  refine List.filterMap_congr fun pair _ => ?_
  dsimp only [Function.comp_apply]
  cases s.clause c pair.1 pair.2 <;> rfl

theorem eager_collect :
    (s.collect c p).eager =
      (s.collect c p).virtualClauses.foldl (fun plan cl => plan.merge (c.plan cl.field)) {} :=
  rfl

theorem search_collect :
    (s.collect c p).search = ((p.get? "search").bind Options.visible?).bind (s.searchPredicate c) :=
  rfl

variable {s c p}

/-- Requests with the same clauses and the same search have one translation but for its faults. -/
theorem collect_of_active {p' : Params}
    (hactive : (s.collect c p').active = (s.collect c p).active)
    (hsearch : p'.get? "search" = p.get? "search") :
    s.collect c p' = { s.collect c p with rejected := (s.collect c p').rejected } := by
  have heager : (s.collect c p').eager = (s.collect c p).eager := by
    rw [eager_collect, eager_collect]
    unfold Translation.virtualClauses
    rw [hactive]
  have hsame : (s.collect c p').search = (s.collect c p).search := by
    rw [search_collect, search_collect, hsearch]
  generalize s.collect c p' = t' at *
  obtain ⟨active, rejected, search, eager⟩ := t'
  obtain rfl := hactive
  obtain rfl := heager
  obtain rfl := hsame
  rfl

end FilterSettings

end FieldQuery
