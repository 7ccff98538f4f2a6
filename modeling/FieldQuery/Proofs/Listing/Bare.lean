import FieldQuery.Proofs.Listing.Consecutive
import FieldQuery.Proofs.Listing.SameFields
import FieldQuery.Proofs.Listing.Selected

/-!
# Fields that are never cached

A cache of values does not matter to fields that do not use it, and need no others that do: a batch of them
is that of an engine without a cache, and so is a request for them.

* `Engine.bare`, `Listing.bare` — an engine, and a listing, without a cache of values;
* `Engine.NeverCaches` — a field needs none that is cached;
* `Listing.NeverCaches` — requests of a kind need no field that is cached.

Principal results: `sameOn_bare` and `execute_bare` — a batch and a request are those without a cache, and
`serves_bare` — so are the states after requests.
-/

namespace FieldQuery

variable {σ : Type}

/-! ## Batches -/

namespace Engine

/-- The engine without a cache of values. -/
def bare (en : Engine σ) : Engine σ := { en with cache := none }

/-- No field that a field needs is cached. -/
def NeverCaches (en : Engine σ) (field : String) : Prop :=
  ∀ n ∈ en.catalog.computationOrder field, ∀ v, KeyMap.get? n en.catalog.virtualFields = some v →
    en.cache = none ∨ v.cacheable = false

section Batches

variable {en : Engine σ}

theorem computeOne_bare {v : VirtualField} (hv : en.cache = none ∨ v.cacheable = false) (b : Batch)
    (e : Entity) (computed : List (String × Value)) (p : Progress σ) :
    en.bare.computeOne b v e computed p = en.computeOne b v e computed p := by
  have hslot : ∀ i, en.slot? v e i = none := by
    intro i
    unfold slot?
    rcases hv with hnone | hcacheable
    · rw [hnone]
    · rw [hcacheable]
      cases en.cache <;> rfl
  unfold computeOne
  cases resolveInputs b v e computed p.cancelled with
  | error err => rfl
  | ok i =>
    dsimp only
    rw [hslot]
    rfl

/-- **An engine without a cache does the same for a field that needs none that is cached.** -/
theorem sameOn_bare (hc : en.catalog.Lawful) {field : String}
    (hfield : field ∈ KeyMap.keys en.catalog.virtualFields) (hnever : en.NeverCaches field) :
    en.SameOn en.bare field where
  settings := rfl
  registered := rfl
  order _ _ := rfl
  needed := by
    intro v hv n hn
    rw [hc.virtual?_eq hfield] at hv
    obtain rfl := hc.name_of_get? hv
    refine ⟨rfl, fun w hw => computeOne_bare (hnever n hn w ?_)⟩
    rwa [hc.virtual?_eq (hc.mem_keys_of_order hfield hn)] at hw

end Batches

end Engine

/-! ## Requests -/

namespace Listing

/-- The listing without a cache of values. -/
def bare (l : Listing σ Store) : Listing σ Store := { l with engine := l.engine.bare }

/-- Requests of a kind need no field that is cached. -/
def NeverCaches (l : Listing σ Store) (requests : String → Params → Prop) : Prop :=
  ∀ entityType p, requests entityType p → ∀ plan,
    l.engine.catalog.planRequest l.settings entityType p = .ok plan →
      ∀ field, plan.Wants field ∨ field ∈ selectedFields plan → l.engine.NeverCaches field

section Requests

variable {l : Listing σ Store} (hc : l.engine.catalog.Lawful) {heeds : Bool} {plan : ListingPlan}
  (hplan : plan.Sufficient l.engine.catalog) (hnever : ∀ field, plan.Wants field → l.engine.NeverCaches field)

include hc hplan hnever

/-- A page for which no field is cached. -/
theorem page_bare (s : ListingState σ Store) : l.bare.page heeds plan s = l.page heeds plan s := by
  have hsame : ∀ field, plan.Wants field → l.engine.SameOn l.bare.engine field :=
    fun field hwants => Engine.sameOn_bare hc (hplan.wanted field hwants) (hnever field hwants)
  unfold page
  split
  · have hclauses : ∀ cl ∈ plan.translation.virtualClauses, l.engine.SameOn l.bare.engine cl.field :=
      fun cl hcl => hsame cl.field (.inl ⟨cl, hcl, rfl⟩)
    have harrange : ∀ rows, l.bare.arrangeFiltered heeds plan.sort plan.options.direction rows =
        l.arrangeFiltered heeds plan.sort plan.options.direction rows := by
      intro rows
      funext s
      unfold arrangeFiltered
      split
      · rfl
      · rfl
      · rename_i field hsort
        unfold sortFiltered
        rw [Engine.fill_sameOn (hsame field (.inr hsort))]
        rfl
    unfold filteredPage
    simp only [Engine.narrow_sameOn hclauses, harrange]
    rfl
  · cases hsort : plan.sort with
    | none => rfl
    | some key =>
      cases key with
      | column name => rfl
      | virtual field =>
        have hsorted : ∀ q o key, l.bare.sortedPage heeds q field o key =
            l.sortedPage heeds q field o key := by
          intro q o key
          funext s
          unfold sortedPage
          simp only [Engine.fill_sameOn (hsame field (.inr hsort))]
          rfl
        dsimp only
        unfold virtualSortedPage memorySortedPage
        simp only [hsorted]
        rfl

end Requests

/-- **A request is that of a listing without a cache of values**, if it needs no field that is cached. -/
theorem execute_bare {l : Listing σ Store} (hc : l.engine.catalog.Lawful)
    {requests : String → Params → Prop} (hnever : l.NeverCaches requests) {entityType : String}
    {p : Params} (hp : requests entityType p) (heeds : Bool) (s : ListingState σ Store) :
    l.bare.execute heeds entityType p s = l.execute heeds entityType p s := by
  cases hrequest : l.engine.catalog.planRequest l.settings entityType p with
  | error err => rw [execute_refused (l := l.bare) hrequest, execute_refused hrequest]
  | ok plan =>
    have hfields := hnever entityType p hp plan hrequest
    have hsufficient := sufficient_of_planRequest hrequest hc
    have hselected : ∀ field ∈ selectedFields plan, l.engine.SameOn l.bare.engine field :=
      fun field hfield => Engine.sameOn_bare hc (hsufficient.selected field hfield)
        (hfields field (.inr hfield))
    rw [execute_eq (l := l.bare) hrequest, execute_eq hrequest,
      page_bare hc hsufficient fun field hwants => hfields field (.inl hwants)]
    simp only [Engine.fillAll_sameOn hselected]
    rfl

/-- The states after requests are those of a listing without a cache of values. -/
theorem serves_bare {l : Listing σ Store} (hc : l.engine.catalog.Lawful)
    {requests : String → Params → Prop} (hnever : l.NeverCaches requests)
    {start s : ListingState σ Store} (h : l.Serves requests start s) :
    l.bare.Serves requests start s := by
  induction h with
  | start => exact .start
  | wait _ time token ih => exact ih.wait time token
  | request _ heeds hp ih =>
    rw [← execute_bare hc hnever hp]
    exact ih.request heeds hp

end Listing

end FieldQuery
