import FieldQuery.Computation.Builtin
import FieldQuery.Proofs.Engine.NeverNull
import FieldQuery.Proofs.Listing.Pushdown
import FieldQuery.Proofs.Listing.Safety

/-!
# Rows without forbidden nulls

* `Engine.Allowed` — rows whose values are values that their fields may have;
* `Engine.Proper` — a turn in which every virtual field that is needed, and the field itself, has a value
  that it may have;
* `Engine.Clean` — a step from a state of an engine to another by uses of its cache whose turns are proper,
  and what it yields.

A listing has its rows from the store, without any value, and gives them values in batches.  The orders that
it caches do not matter: nobody reads null from them.

Principal results: `inputs_allow` — what a turn is given, `fill_clean` — one field for some rows, and
`execute_clean` — a whole request; `never_null` puts them together for every history of an engine.
-/

namespace FieldQuery

namespace Engine

variable {σ : Type} {en : Engine σ} {b : Batch}

/-! ## Inputs -/

/-- What is gathered has been found. -/
theorem mem_gather {α : Type} {look : String → Option α} {missing : String → ComputationError} :
    ∀ {names : List String} {found : List (String × α)}, gather look missing names = .ok found →
      ∀ x ∈ found, x.1 ∈ names ∧ look x.1 = some x.2
  | [], found, h => by
    cases h
    exact fun x hx => absurd hx List.not_mem_nil
  | n :: names, found, h => by
    unfold gather at h
    split at h
    · cases h
    · rename_i a ha
      split at h
      · cases h
      · rename_i rest hrest
        cases h
        exact List.forall_mem_cons.2 ⟨⟨List.mem_cons_self, ha⟩, fun x hx =>
          ⟨List.mem_cons_of_mem _ (mem_gather hrest x hx).1, (mem_gather hrest x hx).2⟩⟩

/-- A moment is the turn of its field in the run over the order. -/
theorem turn_of_mem_orderMoments {e : Entity} {names : List String}
    {computed : List (String × Value)} {p : Progress σ} {t : Moment σ}
    (h : t ∈ en.orderMoments b e names computed p) :
    Turn en b e t.field t.computed names computed p := by
  induction names generalizing computed p with
  | nil => cases h
  | cons name rest ih =>
    unfold orderMoments at h
    cases hv : en.catalog.virtual? name with
    | none =>
      rw [hv] at h
      exact .passed hv (ih h)
    | some v =>
      rw [hv] at h
      rcases List.mem_cons.1 h with rfl | h
      · exact .now hv
      · generalize hrun : en.computeOne b v e computed p = run at h
        obtain ⟨r, p'⟩ := run
        unfold goOn at h
        cases r with
        | ok a => exact .computed hv hrun (ih h)
        | error err =>
          dsimp only at h
          split at h
          · cases h
          · rename_i hown
            split at h
            · rename_i hpolicy
              exact .defaulted hv hrun hown hpolicy (ih h)
            · cases h

/-- In every turn of a batch the virtual fields that are needed have values. -/
theorem covers_of_mem_batchMoments (hc : en.catalog.Lawful) {heeds : Bool} {field : String}
    {es : List Entity} {s : EngineState σ} {t : Moment σ} (h : t ∈ en.batchMoments heeds field es s) :
    KeyMap.get? t.field.name en.catalog.virtualFields = some t.field ∧
      en.catalog.Covers t.field t.computed := by
  obtain ⟨v, -, e, -, p, hentity⟩ := mem_batchMoments h
  unfold entityMoments at hentity
  split at hentity
  · cases hentity
  · have hfinished : Walk.Finished en.catalog.references
        ((en.catalog.computationOrder v.name).reverse ++ []) := by
      rw [List.append_nil]
      exact hc.finished_computationOrder v.name
    exact (Turn.covers hc hfinished (fun n hn => hc.mem_keys_of_computationOrder hn)
      (fun n hn => absurd hn List.not_mem_nil) (turn_of_mem_orderMoments hentity)).2

/-- **What a turn is given for a virtual field is a value of the table**, and none that the field may not
have if the table has none. -/
theorem inputs_allow (hc : en.catalog.Lawful) {t : Moment σ}
    (hfield : KeyMap.get? t.field.name en.catalog.virtualFields = some t.field)
    (hcovers : en.catalog.Covers t.field t.computed)
    (htable : en.Befits VirtualField.Allows t.computed) {i : Inputs} (hinputs : t.inputs = .ok i) :
    ∀ x ∈ i.columns, ∀ w, KeyMap.get? x.1 en.catalog.virtualFields = some w → w.Allows x.2 := by
  intro x hx w hw
  have hkey := Catalog.mem_keys_of_get? hw
  unfold Moment.inputs resolveInputs at hinputs
  split at hinputs
  · cases hinputs
  · rename_i columns hcolumns
    split at hinputs
    · cases hinputs
    · cases hinputs
      obtain ⟨hdependency, hfound⟩ := mem_gather hcolumns x hx
      have hsome := hcovers x.1 ⟨t.field, hfield, hdependency, hkey⟩
      obtain ⟨a, ha⟩ := Option.isSome_iff_exists.1 hsome
      rw [ha] at hfound
      cases hfound
      exact htable _ (Assoc.mem_of_lookup ha) w ((hc.virtual?_eq hkey).trans hw)

/-! ## Rows -/

/-- The values of rows are values that their fields may have. -/
def Allowed (en : Engine σ) (rows : List Row) : Prop :=
  ∀ r ∈ rows, ∀ name v a, en.catalog.virtual? name = some v → r.value? name = some a → v.Allows a

/-- A turn in which the virtual fields that are needed, and the field itself, have values that they may
have. -/
structure Proper (en : Engine σ) (t : Moment σ) : Prop where
  needed : ∀ i, t.inputs = .ok i → ∀ x ∈ i.columns, ∀ w,
    KeyMap.get? x.1 en.catalog.virtualFields = some w → w.Allows x.2
  own : ∀ a, (en.turn t).1 = .ok a → t.field.Allows a

/-- A step of an engine by uses of the cache whose turns are proper, and what it yields. -/
structure Clean {ε α : Type} (en : Engine σ) (cache : Cache σ) (s : EngineState σ) (good : α → Prop)
    (run : Except ε α × EngineState σ) : Prop where
  uses : ∃ us, Uses en cache s.cacheAt us run.2.cacheAt ∧ ∀ t, .turn t ∈ us → en.Proper t
  good : ∀ a, run.1 = .ok a → good a

section Clean

variable {ε ε' α β : Type} {cache : Cache σ} {s s' : EngineState σ} {good : α → Prop} {good' : β → Prop}

theorem Clean.refl {r : Except ε α} (hsame : s'.cacheAt = s.cacheAt)
    (hgood : ∀ a, r = .ok a → good a) : Clean en cache s good (r, s') :=
  ⟨⟨[], by rw [hsame]; exact .nil _, fun t ht => absurd ht List.not_mem_nil⟩, hgood⟩

/-- A step that is followed by another one. -/
theorem Clean.trans {r : Except ε' β} (h : Clean en cache s good' (r, s'))
    {run : Except ε α × EngineState σ} (h' : Clean en cache s' good run) : Clean en cache s good run := by
  obtain ⟨us, huses, hproper⟩ := h.uses
  obtain ⟨us', huses', hproper'⟩ := h'.uses
  exact ⟨⟨us ++ us', huses.append huses', fun t ht =>
    (List.mem_append.1 ht).elim (hproper t) (hproper' t)⟩, h'.good⟩

/-- A step whose result is looked at in another way. -/
theorem Clean.imp {r : Except ε' β} (h : Clean en cache s good' (r, s')) {r' : Except ε α}
    (hgood : ∀ a, r' = .ok a → good a) : Clean en cache s good (r', s') := ⟨h.uses, hgood⟩

end Clean

theorem allowed_append {rows rows' : List Row} (h : en.Allowed rows) (h' : en.Allowed rows') :
    en.Allowed (rows ++ rows') := fun r hr => (List.mem_append.1 hr).elim (h r) (h' r)

theorem Allowed.subset {rows rows' : List Row} (h : en.Allowed rows) (hsub : ∀ r ∈ rows', r ∈ rows) :
    en.Allowed rows' := fun r hr => h r (hsub r hr)

/-- Rows that have just been loaded have no values. -/
theorem allowed_loaded (es : List Entity) : en.Allowed (es.map fun e => { entity := e }) := by
  intro r hr name v a _ ha
  obtain ⟨e, -, rfl⟩ := List.mem_map.1 hr
  cases ha

/-- A row that is settled has a value of the outcome or the default value. -/
theorem allowed_settle {field : String} {excluded : Excluded} {default : Value} {o : BatchOutcome}
    {rows : List Row} (hrows : en.Allowed rows)
    (hdefault : ∀ v, en.catalog.virtual? field = some v → v.Allows default)
    (hresults : ∀ v, en.catalog.virtual? field = some v → ∀ r ∈ o.results, ∀ a, r.2 = .ok a → v.Allows a) :
    en.Allowed (rows.filterMap (Row.settle field excluded default o)) := by
  intro r' hr'
  obtain ⟨r, hr, hsettle⟩ := List.mem_filterMap.1 hr'
  have hgive : ∀ b : Value, (∀ v, en.catalog.virtual? field = some v → v.Allows b) →
      ∀ name v a, en.catalog.virtual? name = some v → (r.give field b).value? name = some a →
        v.Allows a := by
    intro b hb name v a hv ha
    by_cases hname : name = field
    · subst hname
      rw [show (r.give name b).value? name = some b from KeyMap.get?_insert _ _ _] at ha
      cases ha
      exact hb v hv
    · rw [show (r.give field b).value? name = r.value? name from KeyMap.get?_insert_ne hname _ _] at ha
      exact hrows r hr name v a hv ha
  unfold Row.settle at hsettle
  split at hsettle
  · cases hsettle
    exact hrows r' hr
  · split at hsettle
    · rename_i b hvalue
      cases hsettle
      refine hgive b fun v hv => ?_
      unfold BatchOutcome.value? at hvalue
      split at hvalue
      · rename_i value hlookup
        cases hvalue
        exact hresults v hv _ (Assoc.mem_of_lookup hlookup) _ rfl
      · cases hvalue
    · cases hsettle
      exact hgive default hdefault
    · cases hsettle

/-! ## Steps of an engine -/

section Steps

variable {cache : Cache σ} {start : σ} (hc : en.catalog.Lawful)
  (hdefaults : en.catalog.AllowsDefaults) (hcolon : ∀ p ∈ en.catalog.virtualFields, NoColon p.2.name)
  (hcache : ∀ c, en.cache = some c → c = cache) (hhonest : cache.IsHonest Value.decode? start)

include hc hdefaults hcolon hcache hhonest

/-- A batch is such a step. -/
theorem computeBatch_clean {s : EngineState σ} (hgood : cache.Faithful start en.Presentable s.cache)
    (heeds : Bool) (field : String) (es : List Entity) :
    Clean en cache s (fun o : BatchOutcome => ∀ v, en.catalog.virtual? field = some v →
      ∀ r ∈ o.results, ∀ a, r.2 = .ok a → v.Allows a) (en.computeBatch heeds field es s) := by
  obtain ⟨hturns, hresults⟩ :=
    computeBatch_allows hcolon hcache hhonest hc hdefaults hgood heeds field es
  refine ⟨⟨_, uses_computeBatch hc cache heeds field es s, fun t ht => ?_⟩,
    fun o ho v hv => hresults v o hv ho⟩
  obtain ⟨t', ht', htt'⟩ := List.mem_map.1 ht
  cases htt'
  obtain ⟨hfield, hcovers⟩ := covers_of_mem_batchMoments hc ht'
  exact ⟨fun i hi => inputs_allow hc hfield hcovers (hturns t ht').1 hi, (hturns t ht').2⟩

/-- **Rows that are filled have values that their fields may have**, those for which the field is excluded
as well. -/
theorem fill_clean {s : EngineState σ} (hgood : cache.Faithful start en.Presentable s.cache)
    (heeds : Bool) (excluded : Excluded) (field : String) {rows : List Row} (hrows : en.Allowed rows) :
    Clean en cache s en.Allowed (en.fill heeds excluded field rows s) := by
  unfold fill
  split
  · exact .refl rfl fun a ha => by cases ha; exact hrows
  · have hbatch := computeBatch_clean hc hdefaults hcolon hcache hhonest hgood heeds field
      ((rows.filter fun r => !r.has field).map (·.entity))
    generalize en.computeBatch heeds field ((rows.filter fun r => !r.has field).map (·.entity)) s =
      run at hbatch ⊢
    obtain ⟨r, s'⟩ := run
    cases r with
    | error err => exact hbatch.imp fun a ha => by cases ha
    | ok o =>
      refine hbatch.imp fun rows' hrows' => ?_
      cases hrows'
      refine allowed_settle hrows (fun v hv => ?_) (hbatch.good o rfl)
      unfold defaultOf
      rw [hv]
      exact hdefaults _ (KeyMap.mem_of_get? hv)

omit hc hdefaults in
/-- What follows a step finds the cache in the same condition. -/
theorem Clean.faithful {ε α : Type} {s : EngineState σ} {good : α → Prop}
    {run : Except ε α × EngineState σ} (h : Clean en cache s good run)
    (hgood : cache.Faithful start en.Presentable s.cache) :
    cache.Faithful start en.Presentable run.2.cache := by
  obtain ⟨us, huses, -⟩ := h.uses
  exact huses.presentable hcolon hcache hhonest hgood

theorem fillAll_clean (heeds : Bool) (excluded : Excluded) (fields : List String) :
    ∀ {rows : List Row} {s : EngineState σ}, en.Allowed rows →
      cache.Faithful start en.Presentable s.cache →
      Clean en cache s en.Allowed (en.fillAll heeds excluded fields rows s) := by
  induction fields with
  | nil => exact fun hrows _ => .refl rfl fun a ha => by cases ha; exact hrows
  | cons field fields ih =>
    intro rows s hrows hgood
    unfold fillAll
    have hfill := fill_clean hc hdefaults hcolon hcache hhonest hgood heeds excluded field hrows
    have hgood' := hfill.faithful hcolon hcache hhonest hgood
    generalize en.fill heeds excluded field rows s = run at hfill hgood' ⊢
    obtain ⟨r, s'⟩ := run
    cases r with
    | error err => exact hfill.imp fun a ha => by cases ha
    | ok filled => exact hfill.trans (ih (hfill.good filled rfl) hgood')

theorem narrow_clean (heeds : Bool) (clauses : List Clause) :
    ∀ {rows : List Row} {s : EngineState σ}, en.Allowed rows →
      cache.Faithful start en.Presentable s.cache →
      Clean en cache s en.Allowed (en.narrow heeds clauses rows s) := by
  induction clauses with
  | nil => exact fun hrows _ => .refl rfl fun a ha => by cases ha; exact hrows
  | cons cl clauses ih =>
    intro rows s hrows hgood
    unfold narrow
    have hfill := fill_clean hc hdefaults hcolon hcache hhonest hgood heeds .drop cl.field hrows
    have hgood' := hfill.faithful hcolon hcache hhonest hgood
    generalize en.fill heeds .drop cl.field rows s = run at hfill hgood' ⊢
    obtain ⟨r, s'⟩ := run
    cases r with
    | error err => exact hfill.imp fun a ha => by cases ha
    | ok filled =>
      exact hfill.trans (ih ((hfill.good filled rfl).subset fun r hr => (List.mem_filter.1 hr).1) hgood')

end Steps

end Engine

/-! ## Requests -/

namespace Listing

open Engine

variable {σ τ : Type} {l : Listing σ τ} {cache : Cache σ} {start : σ}

/-- A step of a listing, by what it does to the engine. -/
def Clean {α : Type} (l : Listing σ τ) (cache : Cache σ) (s : ListingState σ τ) (good : α → Prop)
    (run : Except Error α × ListingState σ τ) : Prop :=
  Engine.Clean l.engine cache s.engine good (run.1, run.2.engine)

section Requests

variable (hc : l.engine.catalog.Lawful) (hdefaults : l.engine.catalog.AllowsDefaults)
  (hcolon : ∀ p ∈ l.engine.catalog.virtualFields, NoColon p.2.name)
  (hcache : ∀ c, l.engine.cache = some c → c = cache)
  (hsort : ∀ c, l.sortCache = some c → c = cache)
  (hhonest : cache.IsHonest Value.decode? start)

/-! ### The store and the cached orders -/

section Loading

variable (s : ListingState σ τ)

theorem databasePage_clean (q : BaseQuery) (order : Option Order) (o : Options)
    (strategy : SortStrategy) :
    Clean l cache s (fun page : Page => l.engine.Allowed page.rows)
      (l.databasePage q order o strategy s) := by
  unfold databasePage
  split
  · exact .refl rfl fun a ha => by cases ha
  · split
    · exact .refl rfl fun a ha => by cases ha
    · refine .refl rfl fun a ha => ?_
      cases ha
      exact allowed_loaded _

theorem fetchAll_clean (q : BaseQuery) (order : Option Order) :
    Clean l cache s l.engine.Allowed (l.fetchAll q order s) := by
  unfold fetchAll
  dsimp only
  split
  · exact .refl rfl fun a ha => by cases ha
  · refine .refl rfl fun a ha => ?_
    cases ha
    exact allowed_loaded _

theorem cachedPage_clean (q : BaseQuery) (o : Options) (ids : List EntityId) :
    Clean l cache s (fun page : Page => l.engine.Allowed page.rows) (l.cachedPage q o ids s) := by
  unfold cachedPage
  split
  · exact .refl rfl fun a ha => by cases ha
  · refine .refl rfl fun a ha => ?_
    cases ha
    exact allowed_loaded _

end Loading

/-- A look-up of an order is a use of the cache. -/
theorem cachedOrder_clean (hsort : ∀ c, l.sortCache = some c → c = cache) (key : String)
    (s : ListingState σ τ) : Clean l cache s (fun _ : Option (List EntityId) => True)
      (.ok (l.cachedOrder key s).1, (l.cachedOrder key s).2) := by
  unfold cachedOrder
  split
  · exact .refl rfl fun _ _ => trivial
  · rename_i c hc
    obtain rfl := hsort c hc
    dsimp only
    refine ⟨⟨[.findOrder key], ?_, fun t ht => by simp at ht⟩, fun _ _ => trivial⟩
    apply Uses.findOrder
    rw [← Cache.fetch_snd c EntityId.decodeList?]
    split <;> exact .nil _

/-- So is putting it there. -/
theorem cacheOrder_clean (hsort : ∀ c, l.sortCache = some c → c = cache) (key : String)
    (ids : List EntityId) (s : ListingState σ τ) : Clean l cache s (fun _ : Unit => True)
      (.ok (), l.cacheOrder key ids s) := by
  unfold cacheOrder
  split
  · exact .refl rfl fun _ _ => trivial
  · rename_i c hc
    obtain rfl := hsort c hc
    dsimp only
    exact ⟨⟨[.keepOrder key ids (l.settings.sort.sortCacheTtlSecs * nanosPerSecond)],
      .keepOrder _ key ids _ (.nil _), fun t ht => by simp at ht⟩, fun _ _ => trivial⟩

/-! ### Pages -/

theorem onEngine_clean {α : Type} {f : EngineState σ → Except ComputationError α × EngineState σ}
    {s : ListingState σ τ} {good : α → Prop} (h : Engine.Clean l.engine cache s.engine good (f s.engine)) :
    Clean l cache s good (onEngine f s) := by
  unfold onEngine
  dsimp only
  generalize f s.engine = run at h ⊢
  obtain ⟨r, s'⟩ := run
  refine h.imp fun a ha => ?_
  cases r with
  | error err => cases ha
  | ok a' =>
    cases ha
    exact h.good a rfl

include hc hdefaults hcolon hcache hhonest

theorem arrangeFiltered_clean (heeds : Bool) (sort : Option SortKey) (direction : Direction)
    {rows : List Row} {s : ListingState σ τ} (hrows : l.engine.Allowed rows)
    (hgood : cache.Faithful start l.engine.Presentable s.engine.cache) :
    Clean l cache s (fun x : List Row × SortStrategy => l.engine.Allowed x.1)
      (l.arrangeFiltered heeds sort direction rows s) := by
  have hsame : ∀ strategy, Clean l cache s (fun x : List Row × SortStrategy => l.engine.Allowed x.1)
      (.ok (rows, strategy), s) := fun strategy => .refl rfl fun a ha => by cases ha; exact hrows
  unfold arrangeFiltered
  split
  · exact hsame _
  · exact hsame _
  · rename_i field
    unfold sortFiltered
    have hfill := onEngine_clean (l := l)
      (fill_clean hc hdefaults hcolon hcache hhonest hgood heeds .drop field hrows)
    generalize onEngine (l.engine.fill heeds .drop field rows) s = run at hfill ⊢
    obtain ⟨r, s'⟩ := run
    cases r with
    | error e =>
      dsimp only
      split
      · exact hfill.imp fun a ha => by cases ha; exact hrows
      · exact hfill.imp fun a ha => by cases ha
    | ok filled =>
      refine hfill.imp fun a ha => ?_
      cases ha
      exact (hfill.good filled rfl).subset fun r hr => (sortBy_perm _ _).mem_iff.1 hr

theorem filteredPage_clean (heeds : Bool) (plan : ListingPlan) {s : ListingState σ τ}
    (hgood : cache.Faithful start l.engine.Presentable s.engine.cache) :
    Clean l cache s (fun page : Page => l.engine.Allowed page.rows) (l.filteredPage heeds plan s) := by
  unfold filteredPage
  dsimp only
  split
  · exact .refl rfl fun a ha => by cases ha
  split
  · exact .refl rfl fun a ha => by cases ha
  have hfetch : Clean l cache s l.engine.Allowed (l.fetchAll plan.query _ s) :=
    fetchAll_clean s plan.query (storeOrder plan.sort plan.options.direction)
  generalize l.fetchAll plan.query (storeOrder plan.sort plan.options.direction) s = run at hfetch ⊢
  obtain ⟨r, s₁⟩ := run
  cases r with
  | error e => exact hfetch.imp fun a ha => by cases ha
  | ok rows =>
    refine hfetch.trans ?_
    have hgood₁ := hfetch.faithful hcolon hcache hhonest hgood
    dsimp only
    have hnarrow := onEngine_clean (l := l) (s := s₁) (narrow_clean hc hdefaults hcolon hcache hhonest heeds
      plan.translation.virtualClauses (hfetch.good rows rfl) hgood₁)
    generalize onEngine (l.engine.narrow heeds plan.translation.virtualClauses rows) s₁ = run at hnarrow ⊢
    obtain ⟨r, s₂⟩ := run
    cases r with
    | error e => exact hnarrow.imp fun a ha => by cases ha
    | ok kept =>
      refine hnarrow.trans ?_
      have hgood₂ := hnarrow.faithful hcolon hcache hhonest hgood₁
      dsimp only
      have harrange := arrangeFiltered_clean hc hdefaults hcolon hcache hhonest heeds plan.sort
        plan.options.direction (hnarrow.good kept rfl) hgood₂
      generalize l.arrangeFiltered heeds plan.sort plan.options.direction kept s₂ = run at harrange ⊢
      obtain ⟨r, s₃⟩ := run
      cases r with
      | error e => exact harrange.imp fun a ha => by cases ha
      | ok arranged =>
        refine harrange.imp fun page hpage => ?_
        cases hpage
        exact (harrange.good arranged rfl).subset fun r hr => mem_pageOf hr

include hsort

theorem sortedPage_clean (heeds : Bool) (q : BaseQuery) (field : String) (o : Options) (key : String)
    {s : ListingState σ τ} (hgood : cache.Faithful start l.engine.Presentable s.engine.cache) :
    Clean l cache s (fun page : Page => l.engine.Allowed page.rows)
      (l.sortedPage heeds q field o key s) := by
  unfold sortedPage
  have hfetch : Clean l cache s l.engine.Allowed (l.fetchAll q none s) := fetchAll_clean s q none
  generalize l.fetchAll q none s = run at hfetch ⊢
  obtain ⟨r, s₁⟩ := run
  cases r with
  | error e => exact hfetch.imp fun a ha => by cases ha
  | ok rows =>
    refine hfetch.trans ?_
    have hgood₁ := hfetch.faithful hcolon hcache hhonest hgood
    dsimp only
    have hfill := onEngine_clean (l := l) (s := s₁)
      (fill_clean hc hdefaults hcolon hcache hhonest hgood₁ heeds .drop field (hfetch.good rows rfl))
    generalize onEngine (l.engine.fill heeds .drop field rows) s₁ = run at hfill ⊢
    obtain ⟨r, s₂⟩ := run
    cases r with
    | error e => exact hfill.imp fun a ha => by cases ha
    | ok filled =>
      refine hfill.trans ((cacheOrder_clean hsort key _ s₂).imp fun page hpage => ?_)
      cases hpage
      exact (hfill.good filled rfl).subset fun r hr => (sortBy_perm _ _).mem_iff.1 (mem_pageOf hr)

theorem memorySortedPage_clean (heeds : Bool) (q : BaseQuery) (field : String) (o : Options)
    {s : ListingState σ τ} (hgood : cache.Faithful start l.engine.Presentable s.engine.cache) :
    Clean l cache s (fun page : Page => l.engine.Allowed page.rows)
      (l.memorySortedPage heeds q field o s) := by
  unfold memorySortedPage
  dsimp only
  have hlook := cachedOrder_clean hsort (l.orderKey q field o.direction) s
  generalize l.cachedOrder (l.orderKey q field o.direction) s = run at hlook ⊢
  obtain ⟨found, s₁⟩ := run
  have hgood₁ := hlook.faithful hcolon hcache hhonest hgood
  cases found with
  | some ids => exact hlook.trans (cachedPage_clean s₁ q o ids)
  | none =>
    exact hlook.trans (sortedPage_clean hc hdefaults hcolon hcache hsort hhonest heeds q field o _ hgood₁)

theorem virtualSortedPage_clean (heeds : Bool) (q : BaseQuery) (field : String) (o : Options)
    {s : ListingState σ τ} (hgood : cache.Faithful start l.engine.Presentable s.engine.cache) :
    Clean l cache s (fun page : Page => l.engine.Allowed page.rows)
      (l.virtualSortedPage heeds q field o s) := by
  unfold virtualSortedPage
  dsimp only
  split
  · exact .refl rfl fun a ha => by cases ha
  split
  · split
    · exact databasePage_clean s q none o .fallback
    · exact .refl rfl fun a ha => by cases ha
  have hpage := memorySortedPage_clean hc hdefaults hcolon hcache hsort hhonest heeds q field o hgood
  generalize l.memorySortedPage heeds q field o s = run at hpage ⊢
  obtain ⟨r, s₁⟩ := run
  cases r with
  | ok page => exact hpage
  | error e =>
    dsimp only
    split
    · exact hpage.trans (databasePage_clean s₁ q none o .fallback)
    · exact hpage.imp fun a ha => by cases ha

/-- **The rows of a page have values that their fields may have.** -/
theorem page_clean (heeds : Bool) (plan : ListingPlan) {s : ListingState σ τ}
    (hgood : cache.Faithful start l.engine.Presentable s.engine.cache) :
    Clean l cache s (fun page : Page => l.engine.Allowed page.rows) (l.page heeds plan s) := by
  unfold page
  split
  · exact filteredPage_clean hc hdefaults hcolon hcache hhonest heeds plan hgood
  · cases plan.sort with
    | none => exact databasePage_clean s _ _ _ _
    | some key =>
      cases key with
      | column name => exact databasePage_clean s _ _ _ _
      | virtual field =>
        exact virtualSortedPage_clean hc hdefaults hcolon hcache hsort hhonest heeds _ _ _ hgood

/-- **A response shows rows whose values are values that their fields may have.** -/
theorem execute_clean (heeds : Bool) (entityType : String) (p : Params) {s : ListingState σ τ}
    (hgood : cache.Faithful start l.engine.Presentable s.engine.cache) :
    Clean l cache s (fun r => ∃ plan page rows, r = l.respond p plan page rows ∧
        l.engine.Allowed page.rows ∧ l.engine.Allowed rows)
      (l.execute heeds entityType p s) := by
  unfold execute
  split
  · exact .refl rfl fun a ha => by cases ha
  · rename_i plan _
    have hpage := page_clean hc hdefaults hcolon hcache hsort hhonest heeds plan hgood
    generalize l.page heeds plan s = run at hpage ⊢
    obtain ⟨r, s₁⟩ := run
    cases r with
    | error e => exact hpage.imp fun a ha => by cases ha
    | ok page =>
      refine hpage.trans ?_
      have hgood₁ := hpage.faithful hcolon hcache hhonest hgood
      dsimp only
      have hfill := onEngine_clean (l := l) (s := s₁) (fillAll_clean hc hdefaults hcolon hcache hhonest heeds
        .useDefault (selectedFields plan) (hpage.good page rfl) hgood₁)
      generalize onEngine (l.engine.fillAll heeds .useDefault (selectedFields plan) page.rows) s₁ =
        run at hfill ⊢
      obtain ⟨r, s₂⟩ := run
      cases r with
      | error e => exact hfill.imp fun a ha => by cases ha
      | ok rows =>
        refine hfill.imp fun r hr => ?_
        cases hr
        exact ⟨plan, page, rows, rfl, hpage.good page rfl, hfill.good rows rfl⟩

end Requests

end Listing

/-! ## Histories -/

namespace Engine

variable {σ : Type}

/-- **A field that is not nullable never yields null.**  The virtual fields of the catalog have been checked.
After any uses of the cache by batches, requests and cached orders, no batch yields null for the field, no row
has null there once it has been filled, by a default value or otherwise, and no other field is given null for
it.  All this holds as well for the turns of every request and for the rows that it shows; and batches and
requests are uses of the cache themselves, so that histories go on with them. -/
theorem never_null (rs : List Registration)
    (hrs : ∀ v, .virtual v ∈ rs → (Registration.virtual v).IsBuilt) {en : Engine σ}
    (hcatalog : en.catalog = Catalog.enterAll {} rs) {cache : Cache σ} {start : σ}
    (hcache : ∀ c, en.cache = some c → c = cache) (hhonest : cache.IsHonest Value.decode? start)
    {clock : Nat} {us : List (Use σ)} {s : EngineState σ} (hs : Uses en cache ⟨start, clock⟩ us s.cacheAt)
    {name : String} {v : VirtualField} (hv : en.catalog.virtual? name = some v)
    (hnullable : v.nullable = false) :
    (∀ heeds field es,
      (∃ us', Uses en cache ⟨start, clock⟩ (us ++ us') (en.computeBatch heeds field es s).2.cacheAt) ∧
      (∀ t ∈ en.batchMoments heeds field es s, ∀ i, t.inputs = .ok i → (v.name, .null) ∉ i.columns) ∧
      ∀ o, (en.computeBatch heeds field es s).1 = .ok o → en.catalog.virtual? field = some v →
        ∀ r ∈ o.results, r.2 ≠ .ok .null) ∧
    (∀ heeds excluded field rows, en.Allowed rows →
      ∀ rows', (en.fill heeds excluded field rows s).1 = .ok rows' → en.Allowed rows' ∧
        ∀ r ∈ rows', r.value? name ≠ some .null) ∧
    ∀ (τ : Type) (l : Listing σ τ), l.engine = en → (∀ c, l.sortCache = some c → c = cache) →
      ∀ heeds entityType p store,
        (∃ us', Uses en cache ⟨start, clock⟩ (us ++ us')
            (l.execute heeds entityType p ⟨s, store⟩).2.engine.cacheAt ∧
          ∀ t, .turn t ∈ us' → (∀ i, t.inputs = .ok i → (v.name, .null) ∉ i.columns) ∧
            (t.field = v → (en.turn t).1 ≠ .ok .null)) ∧
        ∀ r, (l.execute heeds entityType p ⟨s, store⟩).1 = .ok r →
          ∃ plan page rows, r = l.respond p plan page rows ∧
            ∀ row ∈ page.rows ++ rows, row.value? name ≠ some .null := by
  have hc : en.catalog.Lawful := by
    rw [hcatalog]
    exact Catalog.Lawful.empty.enterAll rs
  have hdefaults : en.catalog.AllowsDefaults := by
    rw [hcatalog]
    exact Catalog.allowsDefaults_enterAll hrs
  have hcolon : ∀ p ∈ en.catalog.virtualFields, NoColon p.2.name := by
    rw [hcatalog]
    exact Catalog.noColon_of_built hrs
  have hgood : cache.Faithful start en.Presentable s.cache :=
    hs.presentable hcolon hcache hhonest Cache.faithful_start
  have hget := hc.get?_name hv
  have hproper : ∀ t, en.Proper t → (∀ i, t.inputs = .ok i → (v.name, .null) ∉ i.columns) ∧
      (t.field = v → (en.turn t).1 ≠ .ok .null) := by
    intro t ht
    refine ⟨fun i hi hmem => ht.needed i hi _ hmem v hget hnullable rfl, ?_⟩
    rintro rfl hnull
    exact ht.own .null hnull hnullable rfl
  have hallowed : ∀ rows, en.Allowed rows → ∀ r ∈ rows, r.value? name ≠ some .null :=
    fun rows hrows r hr hnull => hrows r hr name v .null hv hnull hnullable rfl
  refine ⟨fun heeds field es => ?_, fun heeds excluded field rows hrows rows' hrows' => ?_, ?_⟩
  · have hbatch := computeBatch_clean hc hdefaults hcolon hcache hhonest hgood heeds field es
    refine ⟨⟨_, hs.append (uses_computeBatch hc cache heeds field es s)⟩, fun t ht => ?_, ?_⟩
    · obtain ⟨hturns, -⟩ := computeBatch_allows hcolon hcache hhonest hc hdefaults hgood heeds field es
      obtain ⟨hfield, hcovers⟩ := covers_of_mem_batchMoments hc ht
      exact fun i hi hmem =>
        inputs_allow hc hfield hcovers (hturns t ht).1 hi _ hmem v hget hnullable rfl
    · exact fun o ho hfield r hr hnull => hbatch.good o ho v hfield r hr .null hnull hnullable rfl
  · have hfill := fill_clean hc hdefaults hcolon hcache hhonest hgood heeds excluded field hrows
    exact ⟨hfill.good rows' hrows', hallowed rows' (hfill.good rows' hrows')⟩
  · rintro τ l rfl hsort heeds entityType p store
    have hrequest := Listing.execute_clean (s := ⟨s, store⟩) hc hdefaults hcolon hcache hsort hhonest heeds
      entityType p hgood
    obtain ⟨us', huses, hturns⟩ := hrequest.uses
    refine ⟨⟨us', hs.append huses, fun t ht => hproper t (hturns t ht)⟩, fun r hr => ?_⟩
    obtain ⟨plan, page, rows, hrespond, hpage, hrows⟩ := hrequest.good r hr
    exact ⟨plan, page, rows, hrespond, hallowed _ (allowed_append hpage hrows)⟩

section Scores

/-- The points of a player, never null. -/
def score : VirtualField where
  name := "score"
  fieldType := .integer
  computation := .coalesce
  computationName := "score"
  dependencies := ["points"]
  operators := FieldType.integer.operators
  cacheable := true
  default := .int 0
  nullable := false

/-- What a player with a score has. -/
def grade : VirtualField where
  name := "grade"
  fieldType := .integer
  computation := .coalesce
  computationName := "grade"
  dependencies := ["score"]
  operators := FieldType.integer.operators

/-- An engine that remembers scores and has default values for those that cannot be computed. -/
def scoring : Engine MemoryCache where
  catalog := Catalog.enterAll {} [.virtual score, .virtual grade]
  settings := { failurePolicy := .default }
  digest := id
  cache := some MemoryCache.cache

/-- A player without points. -/
def newcomer : Entity := .mk "player" (.int 1) [("points", .null)] []

/-- A player with points. -/
def winner : Entity := .mk "player" (.int 2) [("points", .int 7)] []

/-- Before any batch. -/
def scoringStart : EngineState MemoryCache := { cache := .empty 10 }

/-- After a batch of scores. -/
def scoringOnce : EngineState MemoryCache :=
  (scoring.computeBatch false "score" [newcomer, winner] scoringStart).2

theorem scoring_isBuilt :
    ∀ v, .virtual v ∈ [Registration.virtual score, .virtual grade] →
      (Registration.virtual v).IsBuilt := by
  intro v hv
  rcases List.mem_cons.1 hv with h | h
  · cases h
    exact ⟨{ name := "score", fieldType := .integer, computation := some .coalesce,
             dependencies := ["points"], cacheable := true, default := .int 0, nullable := false }, rfl⟩
  · cases List.mem_singleton.1 h
    exact ⟨{ name := "grade", fieldType := .integer, computation := some .coalesce,
             dependencies := ["score"] }, rfl⟩

/-- The newcomer has the default score and the winner the remembered one, and both hand it on to the
grade. -/
theorem never_null_scores :
    (∀ v, .virtual v ∈ [Registration.virtual score, .virtual grade] →
      (Registration.virtual v).IsBuilt) ∧
    (scoring.computeBatch false "grade" [newcomer, winner] scoringOnce).1.toOption.map
      (fun o => ((o.value? (.int 1)).bind Value.int?, (o.value? (.int 2)).bind Value.int?,
        o.stats.cacheHits)) = some (some 0, some 7, 1) ∧
    (∀ t ∈ scoring.batchMoments false "grade" [newcomer, winner] scoringOnce,
      ∀ i, t.inputs = .ok i → ("score", .null) ∉ i.columns) ∧
    ∀ o, (scoring.computeBatch false "score" [newcomer, winner] scoringOnce).1 = .ok o →
      ∀ r ∈ o.results, r.2 ≠ .ok .null := by
  have hc : scoring.catalog.Lawful :=
    Catalog.Lawful.empty.enterAll [.virtual score, .virtual grade]
  have hs : Uses scoring MemoryCache.cache ⟨.empty 10, 0⟩
      ((scoring.batchMoments false "score" [newcomer, winner] scoringStart).map .turn)
      scoringOnce.cacheAt :=
    uses_computeBatch hc MemoryCache.cache false "score" [newcomer, winner] scoringStart
  have hscore : scoring.catalog.virtual? "score" = some score := rfl
  obtain ⟨hbatches, -, -⟩ := never_null [.virtual score, .virtual grade] scoring_isBuilt rfl
    (fun c hc => (Option.some.inj hc).symm) (MemoryCache.isHonest 10 Value.decode?) hs hscore rfl
  exact ⟨scoring_isBuilt, by decide +kernel, (hbatches false "grade" _).2.1,
    fun o ho => (hbatches false "score" _).2.2 o ho rfl⟩

end Scores

end Engine

end FieldQuery
