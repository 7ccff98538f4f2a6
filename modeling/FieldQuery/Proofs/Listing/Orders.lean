import FieldQuery.Proofs.Engine.Unheard
import FieldQuery.Proofs.Listing.Twins
import FieldQuery.Proofs.Query.Fingerprint

/-!
# Cached orders

Everything that a listing puts into its cache is the order of some rows, under the key of the query for
them.

* `OrderAsk` — a query for rows in the order of a virtual field, `OrderAsk.text` — what its key is taken
  of;
* `orderOf` — the rows that are not left out for the field, sorted by it;
* `Listing.Orders` — the identities in the order of an ask;
* `Listing.Backed` — a text is such an order, under the key of its ask;
* `Listing.Trusted` — a cache that is honest, and asks that can be told apart by their keys;
* `Listing.Holds`, `Listing.InOrder` — a state of the engine in which everything in the cache is backed, and
  such a state that is not cancelled;
* `Listing.Tidies` — a step of the engine that leaves the token alone and everything in the cache backed.

Principal results: `cachedOrder_orders` — an order that is found is the order of the ask,
`cacheOrder_tidies` — orders may be cached as long as they are those of their asks, and
`entities_sorted` — rows that have been filled come into that order.
-/

namespace FieldQuery

open Meaning

variable {σ : Type}

/-- A query for rows in the order of a virtual field. -/
structure OrderAsk where
  query : BaseQuery
  field : String
  direction : Direction

/-- What the key of an order is taken of. -/
def OrderAsk.text (a : OrderAsk) : String := (a.query.shape a.field a.direction).compact

/-- The rows that are not left out for a virtual field, sorted by it. -/
def orderOf (c : Catalog) (policy : FailurePolicy) (field : String) (direction : Direction)
    (rows : List Entity) : List Entity :=
  sortBy (fun e e' => compareKeys direction (own? c policy field e.whole) (own? c policy field e'.whole))
    (rows.filter fun e => (own? c policy field e.whole).isSome)

namespace Listing

/-- The identities in the order of an ask: of the rows that the store finds, of which none ends a batch, and
for which the field can be computed. -/
structure Orders (l : Listing σ Store) (tables : KeyMap (List Entity)) (a : OrderAsk)
    (rows : List Entity) (ids : List EntityId) : Prop where
  found : ({ tables := tables } : Store).matching a.query = .ok rows
  spared : l.engine.Spared a.field (rows.map Entity.whole)
  managed : l.engine.Manages a.field (rows.map Entity.whole)
  ids : ids = (orderOf l.engine.catalog l.engine.settings.failurePolicy a.field a.direction rows).map
    (·.id)

/-- A text is the order of an ask, under the key of the ask. -/
def Backed (l : Listing σ Store) (tables : KeyMap (List Entity)) (asks : OrderAsk → Prop)
    (key content : String) : Prop :=
  ∃ a rows ids, asks a ∧ key = l.orderKey a.query a.field a.direction ∧ l.Orders tables a rows ids ∧
    content = EntityId.encodeList ids

/-- A cache that is honest from a state on, and asks that can be told apart by their keys. -/
structure Trusted (l : Listing σ Store) (asks : OrderAsk → Prop) (start : σ) : Prop where
  honest : ∀ cache, l.sortCache = some cache → cache.IsHonest EntityId.decodeList? start
  finite : ∀ a, asks a → Predicate.AllFinite a.query.predicates
  digests : ∀ a a', asks a → asks a' → l.engine.digest a.text = l.engine.digest a'.text →
    a.text = a'.text

/-- A state of the engine that is not cancelled, and in which everything in the cache is backed. -/
structure InOrder (l : Listing σ Store) (tables : KeyMap (List Entity)) (asks : OrderAsk → Prop)
    (start : σ) (s : EngineState σ) : Prop where
  token : s.cancelled = false
  orders : ∀ cache, l.sortCache = some cache → cache.Faithful start (l.Backed tables asks) s.cache

/-- A state of the engine in which everything in the cache is backed. -/
def Holds (l : Listing σ Store) (tables : KeyMap (List Entity)) (asks : OrderAsk → Prop)
    (start : σ) (s : EngineState σ) : Prop :=
  ∀ cache, l.sortCache = some cache → cache.Faithful start (l.Backed tables asks) s.cache

/-- A step of the engine that leaves the token alone, and everything in the cache backed. -/
structure Tidies (l : Listing σ Store) (tables : KeyMap (List Entity)) (asks : OrderAsk → Prop)
    (start : σ) (s s' : EngineState σ) : Prop where
  token : s'.cancelled = s.cancelled
  holds : l.Holds tables asks start s → l.Holds tables asks start s'

section Steps

variable {l : Listing σ Store} {tables : KeyMap (List Entity)} {asks : OrderAsk → Prop} {start : σ}
  {s : ListingState σ Store}

namespace Tidies

theorem refl (s : EngineState σ) : l.Tidies tables asks start s s := ⟨rfl, id⟩

theorem trans {s s' s'' : EngineState σ} (h : l.Tidies tables asks start s s')
    (h' : l.Tidies tables asks start s' s'') : l.Tidies tables asks start s s'' :=
  ⟨h'.token.trans h.token, fun hholds => h'.holds (h.holds hholds)⟩

theorem of_rests {s s' : EngineState σ} (hrests : s.Rests s') : l.Tidies tables asks start s s' where
  token := hrests.cancelled
  holds h cache hcache := by
    rw [hrests.cache]
    exact h cache hcache

end Tidies

/-- Keys of orders tell their texts. -/
theorem text_of_orderKey (htrusted : l.Trusted asks start) {a a' : OrderAsk} (ha : asks a)
    (ha' : asks a') (h : l.orderKey a.query a.field a.direction =
      l.orderKey a'.query a'.field a'.direction) : a.text = a'.text := by
  refine htrusted.digests a a' ha ha' ?_
  have htext := congrArg String.toList h
  unfold orderKey BaseQuery.fingerprint at htext
  rw [String.toList_append, String.toList_append] at htext
  exact String.toList_inj.1 (List.append_cancel_left htext)

/-- **An order that is found is the order of the ask.** -/
theorem cachedOrder_orders (htrusted : l.Trusted asks start)
    (hholds : l.Holds tables asks start s.engine) {a : OrderAsk} (ha : asks a)
    {ids : List EntityId}
    (h : (l.cachedOrder (l.orderKey a.query a.field a.direction) s).1 = some ids) :
    ∃ rows, l.Orders tables a rows ids := by
  unfold cachedOrder at h
  cases hcache : l.sortCache with
  | none =>
    rw [hcache] at h
    cases h
  | some cache =>
    rw [hcache] at h
    dsimp only at h
    split at h
    · rename_i found hfetch
      dsimp only at h
      subst h
      obtain ⟨content, ⟨a', rows, ids', ha', hkey, horders, hcontent⟩, hread⟩ :=
        (htrusted.honest cache hcache).fetch (hholds cache hcache) hfetch
      rw [hcontent, EntityId.decodeList?_encodeList] at hread
      cases hread
      obtain ⟨htype, hpredicates, hfield, hdirection⟩ := BaseQuery.shape_injective
        (htrusted.finite a ha) (htrusted.finite a' ha') (text_of_orderKey htrusted ha ha' hkey)
      refine ⟨rows, ?_, ?_, ?_, ?_⟩
      · rw [Store.matching_congr htype hpredicates]
        exact horders.found
      · rw [hfield]
        exact horders.spared
      · rw [hfield]
        exact horders.managed
      · rw [hfield, hdirection]
        exact horders.ids
    · cases h

theorem cachedOrder_tidies (key : String) :
    l.Tidies tables asks start s.engine (l.cachedOrder key s).2.engine := by
  unfold cachedOrder
  cases hcache : l.sortCache with
  | none => exact .refl _
  | some cache =>
    dsimp only
    have hstate : l.Tidies tables asks start s.engine
        { s.engine with
          cache := (cache.fetch EntityId.decodeList? (s.engine.clock + 1) key s.engine.cache).2
          clock := s.engine.clock + 1 } := by
      refine ⟨rfl, fun hholds cache' hcache' => ?_⟩
      rw [hcache] at hcache'
      cases hcache'
      exact (hholds cache hcache).get _ key
    split
    · exact hstate
    · exact hstate

theorem cacheOrder_tidies {key : String} {ids : List EntityId}
    (hbacked : l.Backed tables asks key (EntityId.encodeList ids)) :
    l.Tidies tables asks start s.engine (l.cacheOrder key ids s).engine := by
  unfold cacheOrder
  cases hcache : l.sortCache with
  | none => exact .refl _
  | some cache =>
    refine ⟨rfl, fun hholds cache' hcache' => ?_⟩
    rw [hcache] at hcache'
    cases hcache'
    exact (hholds cache hcache).put _ hbacked _

end Steps

/-! ## Rows of an order -/

/-- **Filling rows tells whether the field can be computed for them**, unless the token ends the batch. -/
theorem fill_tells {en : Engine σ} (hc : en.catalog.Lawful) (hpure : en.catalog.IsPure)
    (hcache : en.cache = none) {field : String} (hfield : field ∈ KeyMap.keys en.catalog.virtualFields)
    {rows : List Row} (hlacks : ∀ r ∈ rows, r.value? field = none) (heeds : Bool) (excluded : Excluded)
    (s : EngineState σ) :
    (en.fill heeds excluded field rows s).1 = .error (.cancelled field) ∨
      ((∃ filled, (en.fill heeds excluded field rows s).1 = .ok filled) ↔
        en.Manages field (rows.map (·.entity))) := by
  rw [Engine.fill_eq, Engine.pending_of_lacking hlacks]
  have htells := Engine.computeBatch_tells hc hpure hcache hfield heeds (rows.map (·.entity)) s
  split
  · rename_i hnone
    rw [hnone]
    exact .inr (iff_of_true ⟨rows, rfl⟩ ⟨s, Engine.computeBatch_nil hc hfield false s⟩)
  · rcases htells with hcancelled | hmanages
    · left
      dsimp only
      rw [hcancelled]
      rfl
    · right
      rw [← hmanages]
      dsimp only
      cases (en.computeBatch heeds field (rows.map (·.entity)) s).1 with
      | error err =>
        constructor <;>
        · rintro ⟨_, h⟩
          cases h
      | ok o => exact ⟨fun _ => ⟨o, rfl⟩, fun _ => ⟨_, rfl⟩⟩

theorem entities_loaded_id (es : List Entity) :
    (es.map fun e => ({ entity := e } : Row)).map (·.entity) = es := by
  rw [List.map_map]
  exact List.map_id es

section Sorted

variable {en : Engine σ} {plan : ListingPlan} {field : String} {rows : List Entity}
  (hc : en.catalog.Lawful) (hofInputs : en.catalog.IsOfInputs) (hplan : plan.Sufficient en.catalog)
  (hwants : plan.Wants field)

include hc hofInputs hplan hwants

/-- Rows end a batch as they are loaded if they do so as a whole. -/
theorem spared_loaded : en.Spared field (rows.map (Store.project plan.query)) ↔
    en.Spared field (rows.map Entity.whole) := by
  unfold Engine.Spared
  simp only [List.forall_mem_map]
  refine imp_congr_right fun _ => forall₂_congr fun e _ => forall₂_congr fun v hv => ?_
  have hname := hc.name_of_get? hv
  subst hname
  rw [value_sameFor hc hofInputs hv (hplan.loaded v.name hwants e)]

/-- A field can be computed for rows as they are loaded if it can be for them as a whole. -/
theorem manages_loaded (hcache : en.cache = none) :
    en.Manages field (rows.map (Store.project plan.query)) ↔
      en.Manages field (rows.map Entity.whole) := by
  have hfield := hplan.wanted field hwants
  have hsame : List.Forall₂ (SameFor (en.catalog.plan field)) (rows.map (Store.project plan.query))
      (rows.map Entity.whole) :=
    List.forall₂_map_left_iff.2 (List.forall₂_map_right_iff.2
      (List.forall₂_same.2 fun e _ => hplan.loaded field hwants e))
  exact ⟨.sameFor hc hcache hfield hofInputs hsame,
    .sameFor hc hcache hfield hofInputs (hsame.flip.imp fun _ _ h => SameFor.symm h)⟩

/-- Rows that have been filled are sorted in the order of the field. -/
theorem entities_sorted {loaded filled : List Row}
    (hloaded : loaded.map (·.entity) = rows.map (Store.project plan.query))
    (h : Filled en.catalog en.settings.failurePolicy field loaded filled) (direction : Direction) :
    (sortRows field direction filled).map (·.entity) =
      (orderOf en.catalog en.settings.failurePolicy field direction rows).map
        (Store.project plan.query) := by
  have hown : ∀ e, own? en.catalog en.settings.failurePolicy field (Store.project plan.query e) =
      own? en.catalog en.settings.failurePolicy field e.whole :=
    own?_loaded hc hofInputs hplan hwants
  have hfiltered : filled.map (·.entity) = (rows.filter fun e =>
      (own? en.catalog en.settings.failurePolicy field e.whole).isSome).map
        (Store.project plan.query) := by
    rw [h.entities, hloaded, List.filter_map]
    congr 1
    refine List.filter_congr fun e _ => ?_
    rw [Function.comp_apply, hown]
  rw [entities_sortRows h.has, hfiltered]
  unfold orderOf
  refine (map_sortBy fun e _ e' _ => ?_).symm
  rw [hown, hown]

end Sorted

theorem orderOf_perm (c : Catalog) (policy : FailurePolicy) (field : String)
    (direction : Direction) (rows : List Entity) :
    (orderOf c policy field direction rows).Perm
      (rows.filter fun e => (own? c policy field e.whole).isSome) :=
  sortBy_perm _ _

/-- Rows with different identities are found by these. -/
theorem filterMap_rowOf? {rows : List Entity} (hids : (rows.map (·.id)).Nodup) {es : List Entity}
    (hes : es ⊆ rows) : (es.map (·.id)).filterMap (fun id => Store.rowOf? id rows) = es := by
  have hrow : ∀ e ∈ rows, Store.rowOf? e.id rows = some e := by
    intro e he
    unfold Store.rowOf?
    cases hfind : rows.reverse.find? fun row => row.id == e.id with
    | none =>
      have hnone := List.find?_eq_none.1 hfind e (List.mem_reverse.2 he)
      simp at hnone
    | some e' =>
      have hmem := List.mem_reverse.1 (List.mem_of_find?_eq_some hfind)
      have hid : e'.id = e.id := by simpa using List.find?_some hfind
      rw [List.inj_on_of_nodup_map hids hmem he hid]
  rw [List.filterMap_map]
  exact (List.filterMap_congr fun e he => hrow e (hes he)).trans List.filterMap_some

end Listing

end FieldQuery
