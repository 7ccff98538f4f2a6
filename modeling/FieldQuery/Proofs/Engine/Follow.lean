import FieldQuery.Proofs.Engine.Recall

/-!
# An engine with a cache follows one without

Two engines with one catalog and the same settings, of which one may have a cache and the other has
none, run side by side.

* `Trails` — a progress has used no more than another one, and has counted the same results;
* `Follows` — a run yields what another one yields and trails it, unless the other one has reached a
  ceiling: a value that is recalled takes no time and no memory;
* `FollowsTo` — the same for a chunk, whose entities go on after one that has reached a ceiling;
* `Alike` — two batches that differ in their deadlines only.

Principal results: `computeOne_follows`, one field, and from it by induction `computeOrder_follows`,
`computeChunk_follows`, `computeChunks_follows` and `computeBatch_follows`.
-/

namespace FieldQuery

/-- An outcome without the counts of computations and of the cache. -/
def BatchOutcome.ofResults (o : BatchOutcome) : BatchOutcome := { o with stats := o.stats.ofResults }

namespace Engine

variable {σ τ : Type}

/-- A progress that has used no more than another one, and has counted the same results. -/
structure Trails (p : Progress σ) (p₀ : Progress τ) : Prop where
  cancelled : p.cancelled = p₀.cancelled
  spent : p.spent ≤ p₀.spent
  used : p.used ≤ p₀.used
  stats : p.stats.ofResults = p₀.stats.ofResults

/-- A run yields what another one yields and trails it, unless the other one has reached a ceiling. -/
def Follows {α : Type} (run : Except ComputationError α × Progress σ)
    (run₀ : Except ComputationError α × Progress τ) : Prop :=
  run.1 = run₀.1 ∧ Trails run.2 run₀.2 ∨ ∃ err, run₀.1 = .error err ∧ err.IsCeiling

/-- A chunk yields what another one yields and trails it, or they agree up to an entity at which the
other one has reached a ceiling. -/
def FollowsTo (run : Results × Progress σ) (run₀ : Results × Progress τ) : Prop :=
  run.1 = run₀.1 ∧ Trails run.2 run₀.2 ∨
    ∃ before id err after after₀, run.1 = before ++ after ∧
      run₀.1 = before ++ (id, .error err) :: after₀ ∧ err.IsCeiling

/-- A run of chunks yields what another one yields, and trails it if it ends well, unless the other
one has reached a ceiling. -/
def Ends {α : Type} (run : Except ComputationError α × Progress σ)
    (run₀ : Except ComputationError α × Progress τ) : Prop :=
  run.1 = run₀.1 ∧ (∀ a, run.1 = .ok a → Trails run.2 run₀.2) ∨
    ∃ err, run₀.1 = .error err ∧ err.IsCeiling

/-- A batch has the outcome of another one, up to the counts of computations and of the cache, unless
the other one has reached a ceiling. -/
def Recovers (outcome outcome₀ : Except ComputationError BatchOutcome) : Prop :=
  outcome.map BatchOutcome.ofResults = outcome₀.map BatchOutcome.ofResults ∨
    ∃ err, outcome₀ = .error err ∧ err.IsCeiling

/-- Two batches that differ in their deadlines only. -/
structure Alike (b b₀ : Batch) : Prop where
  target : b.target = b₀.target
  order : b.order = b₀.order
  budget : b.budget = b₀.budget
  heeds : b.heeds = b₀.heeds

theorem Trails.still {p p' : Progress σ} {p₀ : Progress τ} (h : Still p p') (ht : Trails p p₀) :
    Trails p' p₀ where
  cancelled := h.cancelled.trans ht.cancelled
  spent := h.spent.trans_le ht.spent
  used := h.used.trans_le ht.used
  stats := h.stats.trans ht.stats

theorem Follows.still {α : Type} {r : Except ComputationError α} {p p' : Progress σ}
    {run₀ : Except ComputationError α × Progress τ} (h : Still p p') (hf : Follows (r, p) run₀) :
    Follows (r, p') run₀ :=
  hf.imp_left fun ⟨hr, ht⟩ => ⟨hr, ht.still h⟩

/-- The time of an outcome passes for both. -/
theorem Trails.spend {p : Progress σ} {p₀ : Progress τ} (h : Trails p p₀) (o : Outcome) :
    Trails (Engine.spend o p) (Engine.spend o p₀) where
  cancelled := by simp [h.cancelled]
  spent := by simpa using h.spent
  used := by simpa using h.used
  stats := by simpa using h.stats

/-- The time of an outcome passes for the one that computes. -/
theorem Trails.spare {p : Progress σ} {p₀ : Progress τ} (h : Trails p p₀) {o : Outcome}
    (hkeeps : o.cancels = false) : Trails p (Engine.spend o p₀) where
  cancelled := by simp [h.cancelled, hkeeps]
  spent := by
    rw [spend_spent]
    exact h.spent.trans (Nat.le_add_right _ _)
  used := by simpa using h.used
  stats := by simpa using h.stats

/-! ## One computation -/

/-- A value is taken over where there is room for it. -/
theorem takeOver_of_room {b : Budget} {value : Value} {p : Progress σ}
    (htime : p.spent ≤ b.timeLimitMs) (hmemory : p.used + value.size ≤ b.memoryLimit) :
    takeOver b value p = (.ok value, { p with used := p.used + value.size }) := by
  unfold takeOver Budget.charge
  rw [Budget.checkTime_eq_ok_iff.2 htime]
  dsimp only
  rw [if_neg (Nat.not_lt.2 hmemory)]

/-- A value is not taken over only where a ceiling has been reached. -/
theorem takeOver_cases (b : Budget) (value : Value) (p : Progress σ) :
    p.spent ≤ b.timeLimitMs ∧ p.used + value.size ≤ b.memoryLimit ∨
      ∃ err, (takeOver b value p).1 = .error err ∧ err.IsCeiling := by
  unfold takeOver
  cases htime : b.checkTime p.spent with
  | error err => exact .inr ⟨err, rfl, (Budget.checkTime_error htime).1⟩
  | ok u =>
    cases hcharge : b.charge value.size p.used with
    | mk charged used =>
      cases charged with
      | error err => exact .inr ⟨err, rfl, (Budget.charge_error hcharge).1⟩
      | ok u =>
        refine .inl ⟨Budget.checkTime_eq_ok_iff.1 htime, ?_⟩
        unfold Budget.charge at hcharge
        dsimp only at hcharge
        split at hcharge
        · cases hcharge
        · rename_i hroom
          exact Nat.not_lt.1 hroom

variable {p : Progress σ} {p₀ : Progress τ}

theorem takeOver_follows (b : Budget) (value : Value) (h : Trails p p₀) :
    Follows (takeOver b value p) (takeOver b value p₀) := by
  rcases takeOver_cases b value p₀ with ⟨htime, hmemory⟩ | hceiling
  · have hspent := h.spent
    have hused := h.used
    rw [takeOver_of_room htime hmemory, takeOver_of_room (by omega) (by omega)]
    exact .inl ⟨rfl, h.cancelled, hspent, Nat.add_le_add_right hused _, h.stats⟩
  · exact .inr hceiling

/-- A value that is recalled takes no memory. -/
theorem recalled_follows (b : Budget) (value : Value) (h : Trails p p₀) :
    Follows (.ok value, p) (takeOver b value p₀) := by
  rcases takeOver_cases b value p₀ with ⟨htime, hmemory⟩ | hceiling
  · rw [takeOver_of_room htime hmemory]
    exact .inl ⟨rfl, h.cancelled, h.spent, h.used.trans (Nat.le_add_right _ _), h.stats⟩
  · exact .inr hceiling

theorem compute_follows {b b₀ : Batch} (hbudget : b.budget = b₀.budget) {v : VirtualField} {e : Entity}
    {i i₀ : Inputs} (hsame : v.computation e i = v.computation e i₀) (h : Trails p p₀) :
    Follows (compute b v e i p) (compute b₀ v e i₀ p₀) := by
  rw [compute_eq, compute_eq, hsame, hbudget]
  cases v.accept e (v.computation e i₀) with
  | error err => exact .inl ⟨rfl, h.spend _⟩
  | ok value => exact takeOver_follows b₀.budget value (h.spend _)

/-- Batches that are alike give the same inputs, with their own deadlines. -/
theorem resolveInputs_alike {b b₀ : Batch} (hb : Alike b b₀) (v : VirtualField) (e : Entity)
    (computed : List (String × Value)) (cancelled : Bool) :
    resolveInputs b v e computed cancelled =
      (resolveInputs b₀ v e computed cancelled).map fun i => { i with deadline := some b.deadline } := by
  unfold resolveInputs
  rw [hb.heeds]
  cases resolveColumns v e computed with
  | error err => rfl
  | ok columns => cases resolveRelations v e <;> rfl

/-- The results that have been counted are not those of single fields. -/
theorem compute_stats (b : Batch) (v : VirtualField) (e : Entity) (i : Inputs) (p : Progress σ) :
    (compute b v e i p).2.stats.ofResults = p.stats.ofResults := by
  rw [compute_eq]
  split
  · exact spend_stats _ _
  · unfold takeOver
    split
    · exact spend_stats _ _
    · split
      · exact spend_stats _ _
      · exact spend_stats _ _

section Counts

variable (en : Engine σ) (b : Batch)

theorem computeOne_stats (v : VirtualField) (e : Entity) (computed : List (String × Value))
    (p : Progress σ) :
    (en.computeOne b v e computed p).2.stats.ofResults = p.stats.ofResults := by
  unfold computeOne
  split
  · rfl
  · split
    · rename_i slot _
      have hlook := (findCached_cases slot p).2.1.stats
      unfold findOrCompute
      generalize findCached slot p = looked at hlook ⊢
      obtain ⟨found, p₁⟩ := looked
      cases found with
      | some value => exact hlook
      | none =>
        rename_i i _ _ _
        have hcomputed := (compute_stats b v e i p₁).trans hlook
        dsimp only
        generalize compute b v e i p₁ = run at hcomputed ⊢
        obtain ⟨r, p₂⟩ := run
        cases r with
        | error err => exact hcomputed
        | ok value => exact (remember_cases _ value slot p₂).2.stats.trans hcomputed
    · exact compute_stats b v e _ p

theorem computeOrder_stats (e : Entity) (names : List String) :
    ∀ (computed : List (String × Value)) (p : Progress σ),
      (en.computeOrder b e names computed p).2.stats.ofResults = p.stats.ofResults := by
  induction names with
  | nil =>
    intro computed p
    unfold computeOrder
    split <;> rfl
  | cons name names ih =>
    intro computed p
    unfold computeOrder
    split
    · exact ih computed p
    · rename_i v _
      have hone := en.computeOne_stats b v e computed p
      generalize en.computeOne b v e computed p = run at hone ⊢
      obtain ⟨r, p₁⟩ := run
      cases r with
      | ok value => exact (ih _ p₁).trans hone
      | error err =>
        dsimp only
        split
        · exact hone
        · split
          · exact (ih _ p₁).trans hone
          · exact hone

theorem computeEntity_stats (e : Entity) (p : Progress σ) :
    (en.computeEntity b e p).2.stats.ofResults = p.stats.ofResults := by
  unfold computeEntity
  split
  · rfl
  · exact en.computeOrder_stats b e b.order [] p

theorem computeChunk_stats (es : List Entity) (p : Progress σ) :
    (en.computeChunk b es p).2.stats.ofResults = p.stats.ofResults := by
  induction es generalizing p with
  | nil => rfl
  | cons e es ih =>
    unfold computeChunk
    exact (ih _).trans (en.computeEntity_stats b e p)

end Counts

/-! ## Results -/

/-- Two results with one image both fail alike, or are values with one image. -/
theorem map_eq_map_cases {ε α β : Type} {f g : α → β} {x y : Except ε α} (h : x.map f = y.map g) :
    (∃ err, x = .error err ∧ y = .error err) ∨ ∃ a b, x = .ok a ∧ y = .ok b ∧ f a = g b := by
  cases x with
  | error err =>
    cases y with
    | error err' =>
      cases h
      exact .inl ⟨err, rfl, rfl⟩
    | ok b => cases h
  | ok a =>
    cases y with
    | error err' => cases h
    | ok b => exact .inr ⟨a, b, rfl, rfl, Except.ok.inj h⟩

section Collecting

variable {en : Engine σ} {en₀ : Engine τ}

theorem collect_append (en : Engine σ) (v : VirtualField) (found more acc : Results)
    (stats : BatchStats) :
    en.collect v (found ++ more) acc stats =
      match en.collect v found acc stats with
      | .error err => .error err
      | .ok (acc, stats) => en.collect v more acc stats := by
  induction found generalizing acc stats with
  | nil => rfl
  | cons r found ih =>
    obtain ⟨id, x⟩ := r
    rw [List.cons_append]
    cases x with
    | ok value =>
      rw [collect, collect]
      exact ih _ _
    | error err =>
      rw [collect, collect]
      split
      · rfl
      · split
        · rfl
        · exact ih _ _

/-- What becomes of a failure depends on the settings and on the results that have been counted. -/
theorem settle_alike (hsettings : en.settings = en₀.settings) (v : VirtualField)
    (err : ComputationError) {stats stats₀ : BatchStats} (hstats : stats.ofResults = stats₀.ofResults) :
    (en.settle v err stats).map (Prod.map id BatchStats.ofResults) =
      (en₀.settle v err stats₀).map (Prod.map id BatchStats.ofResults) := by
  have hfailed : stats.failed = stats₀.failed := by
    show stats.ofResults.failed = stats₀.ofResults.failed
    rw [hstats]
  unfold settle
  rw [hsettings]
  cases en₀.settings.failurePolicy <;> cases en₀.settings.abortBatchOnFailure <;>
    simp_all [Except.map, BatchStats.ofResults]

theorem collect_alike (hsettings : en.settings = en₀.settings) (v : VirtualField) (found : Results) :
    ∀ (acc : Results) {stats stats₀ : BatchStats}, stats.ofResults = stats₀.ofResults →
      (en.collect v found acc stats).map (Prod.map id BatchStats.ofResults) =
        (en₀.collect v found acc stats₀).map (Prod.map id BatchStats.ofResults) := by
  induction found with
  | nil =>
    intro acc stats stats₀ hstats
    show Except.ok (acc, stats.ofResults) = Except.ok (acc, stats₀.ofResults)
    rw [hstats]
  | cons r found ih =>
    intro acc stats stats₀ hstats
    obtain ⟨id, x⟩ := r
    cases x with
    | ok value =>
      unfold collect
      exact ih _ hstats
    | error err =>
      unfold collect
      split
      · rfl
      · rcases map_eq_map_cases (settle_alike hsettings v err hstats) with
          ⟨err', hsettled, hsettled₀⟩ | ⟨settled, settled₀, hsettled, hsettled₀, hsame⟩
        · rw [hsettled, hsettled₀]
        · obtain ⟨hresult, hstats'⟩ := Prod.mk.inj hsame
          rw [hsettled, hsettled₀]
          dsimp only
          rw [show settled.1 = settled₀.1 from hresult]
          exact ih _ hstats'

end Collecting

/-- What is taken over from chunks of which one follows the other. -/
theorem collect_follows {en : Engine σ} {en₀ : Engine τ} (hsettings : en.settings = en₀.settings)
    (v : VirtualField) {found found₀ : Results} (hfound : FollowsTo (found, p) (found₀, p₀))
    (hstats : p.stats.ofResults = p₀.stats.ofResults) (acc : Results) :
    (∃ collected collected₀, en.collect v found acc p.stats = .ok collected ∧
        en₀.collect v found₀ acc p₀.stats = .ok collected₀ ∧ collected.1 = collected₀.1 ∧
        collected.2.ofResults = collected₀.2.ofResults ∧ Trails p p₀) ∨
      ∃ err, en₀.collect v found₀ acc p₀.stats = .error err ∧
        (en.collect v found acc p.stats = .error err ∨ err.IsCeiling) := by
  rcases hfound with ⟨hsame, htrails⟩ | ⟨before, id, err, after, after₀, hfound, hfound₀, hceiling⟩
  · dsimp only at hsame
    subst hsame
    rcases map_eq_map_cases (collect_alike hsettings v found acc hstats) with
      ⟨err, hcollect, hcollect₀⟩ | ⟨collected, collected₀, hcollect, hcollect₀, hcollected⟩
    · exact .inr ⟨err, hcollect₀, .inl hcollect⟩
    · obtain ⟨hresults, hstats'⟩ := Prod.mk.inj hcollected
      exact .inl ⟨collected, collected₀, hcollect, hcollect₀, hresults, hstats', htrails⟩
  · right
    dsimp only at hfound hfound₀
    rw [hfound, hfound₀, collect_append, collect_append]
    rcases map_eq_map_cases (collect_alike hsettings v before acc hstats) with
      ⟨err', hcollect, hcollect₀⟩ | ⟨collected, collected₀, hcollect, hcollect₀, -⟩
    · rw [hcollect, hcollect₀]
      exact ⟨err', rfl, .inl rfl⟩
    · rw [hcollect₀]
      refine ⟨err, ?_, .inr hceiling⟩
      dsimp only
      rw [collect, if_pos hceiling.isBatchLevel]

/-! ## Two runs -/

section Running

variable {en : Engine σ} {en₀ : Engine τ} {asks : Ask → Prop} {start : σ} (hc : en.catalog.Lawful)
  (hofInputs : en.catalog.IsOfInputs)
  (htrusted : ∀ cache, en.cache = some cache → en.Trusted asks start cache)
  (hcatalog : en₀.catalog = en.catalog) (hsettings : en.settings = en₀.settings)
  (hnone : en₀.cache = none)

include hc hofInputs htrusted hnone

/-- **One field of an engine with a cache follows that of one without.** -/
theorem computeOne_follows {b b₀ : Batch} (hb : Alike b b₀) {v : VirtualField}
    (hv : KeyMap.get? v.name en.catalog.virtualFields = some v) (e : Entity)
    (computed : List (String × Value)) (hasks : ∀ a ∈ oneAsks b v e computed p, asks a)
    (hsound : en.Sound asks start p.cache) (h : Trails p p₀) :
    Follows (en.computeOne b v e computed p) (en₀.computeOne b₀ v e computed p₀) := by
  have hv' := hofInputs _ (KeyMap.mem_of_get? hv)
  have hrecalls := (computeOne_recalls hc hofInputs htrusted b hv e computed hasks hsound).1
  generalize en.computeOne b v e computed p = run at hrecalls
  have hslot : ∀ i, en₀.slot? v e i = none := by
    intro i
    unfold slot?
    rw [hnone]
  have hinputs := resolveInputs_alike hb v e computed p.cancelled
  -- the other engine computes, from inputs with another deadline
  have hother : ∀ i, resolveInputs b v e computed p.cancelled = .ok i →
      ∃ i₀, v.computation e i = v.computation e i₀ ∧
        en₀.computeOne b₀ v e computed p₀ = compute b₀ v e i₀ p₀ := by
    intro i hi
    rw [hi] at hinputs
    cases hi₀ : resolveInputs b₀ v e computed p.cancelled with
    | error err =>
      rw [hi₀] at hinputs
      cases hinputs
    | ok i₀ =>
      rw [hi₀] at hinputs
      cases hinputs
      refine ⟨i₀, ?_, ?_⟩
      · rw [hv'.looks e i₀, hv'.looks]
      · unfold computeOne
        rw [← h.cancelled, hi₀]
        dsimp only
        rw [hslot]
  cases hrecalls with
  | @lacking err hlacking =>
    refine .inl ⟨?_, ?_⟩ <;>
    · rw [hlacking] at hinputs
      unfold computeOne
      rw [← h.cancelled]
      cases hi₀ : resolveInputs b₀ v e computed p.cancelled with
      | error err₀ =>
        rw [hi₀] at hinputs
        cases hinputs
        first | rfl | exact h
      | ok i₀ =>
        rw [hi₀] at hinputs
        cases hinputs
  | @recalled i value p' hi hvalue hstill =>
    obtain ⟨i₀, hsame, hrun⟩ := hother i hi
    rw [hrun, compute_eq, ← hsame, hvalue]
    exact (recalled_follows b₀.budget value (h.spare (hv'.keeps e i))).still hstill
  | @computed i p₁ p' hi hstill hstill' =>
    obtain ⟨i₀, hsame, hrun⟩ := hother i hi
    rw [hrun]
    exact (compute_follows hb.budget hsame (h.still hstill)).still hstill'

include hcatalog hsettings

/-- The fields of an order. -/
theorem computeOrder_follows {b b₀ : Batch} (hb : Alike b b₀) (e : Entity) (names : List String) :
    ∀ (computed : List (String × Value)) (p : Progress σ) (p₀ : Progress τ),
      (∀ a ∈ en.orderAsks b e names computed p, asks a) → en.Sound asks start p.cache →
      Trails p p₀ →
      Follows (en.computeOrder b e names computed p) (en₀.computeOrder b₀ e names computed p₀) := by
  induction names with
  | nil =>
    intro computed p p₀ _ _ h
    unfold computeOrder
    rw [hb.target]
    split <;> exact .inl ⟨rfl, h⟩
  | cons name names ih =>
    intro computed p p₀ hasks hsound h
    unfold orderAsks at hasks
    unfold computeOrder
    rw [hcatalog]
    cases hget : en.catalog.virtual? name with
    | none =>
      rw [hget] at hasks
      exact ih computed p p₀ hasks hsound h
    | some v =>
      rw [hget] at hasks
      dsimp only at hasks ⊢
      have hfirst := fun a ha => hasks a (List.mem_append_left _ ha)
      have hrest := fun a ha => hasks a (List.mem_append_right _ ha)
      have hsound' := steady_sound hc hofInputs htrusted b v e computed p (hc.get?_name hget) hfirst
        hsound
      have hone := computeOne_follows hc hofInputs htrusted hnone hb (hc.get?_name hget) e computed
        hfirst hsound h
      generalize en.computeOne b v e computed p = run at hone hsound' hrest ⊢
      generalize en₀.computeOne b₀ v e computed p₀ = run₀ at hone ⊢
      obtain ⟨r, p₁⟩ := run
      obtain ⟨r₀, p₁₀⟩ := run₀
      rcases hone with ⟨hsame, h₁⟩ | ⟨err, herr, hceiling⟩
      · dsimp only at hsame h₁ hsound'
        subst hsame
        cases r with
        | ok value => exact ih _ p₁ p₁₀ hrest hsound' h₁
        | error err =>
          dsimp only at hrest ⊢
          rw [← hb.target, ← hsettings]
          split
          · exact .inl ⟨rfl, h₁⟩
          · rename_i hlevel
            rw [if_neg hlevel] at hrest
            split
            · rename_i hpolicy
              rw [if_pos hpolicy] at hrest
              exact ih _ p₁ p₁₀ hrest hsound' h₁
            · exact .inl ⟨rfl, h₁⟩
      · dsimp only at herr
        subst herr
        right
        refine ⟨err, ?_, hceiling⟩
        dsimp only
        rw [if_pos (.inr hceiling.isBatchLevel)]

/-- The field of a batch for one entity. -/
theorem computeEntity_follows {b b₀ : Batch} (hb : Alike b b₀) (e : Entity)
    (hasks : ∀ a ∈ en.entityAsks b e p, asks a) (hsound : en.Sound asks start p.cache)
    (h : Trails p p₀) : Follows (en.computeEntity b e p) (en₀.computeEntity b₀ e p₀) := by
  unfold entityAsks at hasks
  unfold computeEntity
  rw [hb.budget] at hasks ⊢
  cases htime₀ : b₀.budget.checkTime p₀.spent with
  | error err => exact .inr ⟨err, rfl, (Budget.checkTime_error htime₀).1⟩
  | ok u =>
    have htime := Budget.checkTime_eq_ok_iff.2 (h.spent.trans (Budget.checkTime_eq_ok_iff.1 htime₀))
    rw [htime] at hasks ⊢
    rw [← hb.order]
    exact computeOrder_follows hc hofInputs htrusted hcatalog hsettings hnone hb e b.order [] p p₀
      hasks hsound h

/-- The entities of a chunk. -/
theorem computeChunk_follows {b b₀ : Batch} (hb : Alike b b₀) (es : List Entity) :
    ∀ (p : Progress σ) (p₀ : Progress τ), (∀ a ∈ en.chunkAsks b es p, asks a) →
      en.Sound asks start p.cache → Trails p p₀ →
      FollowsTo (en.computeChunk b es p) (en₀.computeChunk b₀ es p₀) := by
  induction es with
  | nil => exact fun p p₀ _ _ h => .inl ⟨rfl, h⟩
  | cons e es ih =>
    intro p p₀ hasks hsound h
    unfold chunkAsks at hasks
    have hfirst := fun a ha => hasks a (List.mem_append_left _ ha)
    have hrest := fun a ha => hasks a (List.mem_append_right _ ha)
    have hsound' := computeEntity_steady hc (steady_sound hc hofInputs htrusted) b e hfirst hsound
    have hone := computeEntity_follows hc hofInputs htrusted hcatalog hsettings hnone hb e hfirst
      hsound h
    unfold computeChunk
    generalize en.computeEntity b e p = run at hone hsound' hrest ⊢
    generalize en₀.computeEntity b₀ e p₀ = run₀ at hone ⊢
    obtain ⟨r, p₁⟩ := run
    obtain ⟨r₀, p₁₀⟩ := run₀
    rcases hone with ⟨hsame, h₁⟩ | ⟨err, herr, hceiling⟩
    · dsimp only at hsame h₁
      subst hsame
      rcases ih p₁ p₁₀ hrest hsound' h₁ with
        ⟨hsame, h₂⟩ | ⟨before, id, err, after, after₀, hfound, hfound₀, hceiling⟩
      · exact .inl ⟨congrArg _ hsame, h₂⟩
      · exact .inr ⟨(e.id, r) :: before, id, err, after, after₀, congrArg _ hfound,
          congrArg _ hfound₀, hceiling⟩
    · dsimp only at herr
      subst herr
      exact .inr ⟨[], e.id, err, _, _, rfl, rfl, hceiling⟩

/-- The chunks of a batch. -/
theorem computeChunks_follows {b b₀ : Batch} (hb : Alike b b₀) (parts : List (List Entity)) :
    ∀ (acc : Results) (p : Progress σ) (p₀ : Progress τ),
      (∀ a ∈ en.chunksAsks b parts acc p, asks a) → en.Sound asks start p.cache → Trails p p₀ →
      Ends (en.computeChunks b parts acc p) (en₀.computeChunks b₀ parts acc p₀) := by
  induction parts with
  | nil => exact fun acc p p₀ _ _ h => .inl ⟨rfl, fun _ _ => h⟩
  | cons es parts ih =>
    intro acc p p₀ hasks hsound h
    have hheard : (b₀.heeds && p₀.cancelled) = (b.heeds && p.cancelled) := by
      rw [hb.heeds, h.cancelled]
    unfold chunksAsks at hasks
    unfold computeChunks
    rw [hheard, ← hb.target]
    split
    · exact .inl ⟨rfl, fun _ _ => h⟩
    rename_i hheeds
    rw [if_neg hheeds] at hasks
    rw [hb.budget] at hasks ⊢
    cases htime₀ : b₀.budget.checkTime p₀.spent with
    | error err => exact .inr ⟨err, rfl, (Budget.checkTime_error htime₀).1⟩
    | ok u =>
      have htime := Budget.checkTime_eq_ok_iff.2
        (h.spent.trans (Budget.checkTime_eq_ok_iff.1 htime₀))
      rw [htime] at hasks ⊢
      dsimp only at hasks ⊢
      have h' : Trails { p with stats := { p.stats with chunks := p.stats.chunks + 1 } }
          { p₀ with stats := { p₀.stats with chunks := p₀.stats.chunks + 1 } } :=
        ⟨h.cancelled, h.spent, h.used,
          congrArg (fun s : BatchStats => { s with chunks := s.chunks + 1 }) h.stats⟩
      have hstart : en.Sound asks start
          ({ p with stats := { p.stats with chunks := p.stats.chunks + 1 } } : Progress σ).cache := hsound
      generalize ({ p with stats := { p.stats with chunks := p.stats.chunks + 1 } } : Progress σ) = p₁
        at hasks h' hstart ⊢
      generalize ({ p₀ with stats := { p₀.stats with chunks := p₀.stats.chunks + 1 } } : Progress τ) =
        p₁₀ at h' ⊢
      have hfirst := fun a ha => hasks a (List.mem_append_left _ ha)
      have hrest := fun a ha => hasks a (List.mem_append_right _ ha)
      have hchunk := computeChunk_follows hc hofInputs htrusted hcatalog hsettings hnone hb es p₁ p₁₀
        hfirst hstart h'
      have hsound' := computeChunk_steady hc (steady_sound hc hofInputs htrusted) b es p₁ hfirst
        hstart
      have hstats := (en.computeChunk_stats b es p₁).trans
        (h'.stats.trans (en₀.computeChunk_stats b₀ es p₁₀).symm)
      generalize en.computeChunk b es p₁ = run at hchunk hsound' hstats hrest ⊢
      generalize en₀.computeChunk b₀ es p₁₀ = run₀ at hchunk hstats ⊢
      rcases collect_follows hsettings b.target hchunk hstats acc with
        ⟨collected, collected₀, hcollect, hcollect₀, hresults, hstats', ht⟩ |
          ⟨err, hcollect₀, hcollect⟩
      · rw [hcollect] at hrest ⊢
        rw [hcollect₀]
        dsimp only at hrest ⊢
        rw [← hresults]
        exact ih _ _ _ hrest hsound' ⟨ht.cancelled, ht.spent, ht.used, hstats'⟩
      · rw [hcollect₀]
        rcases hcollect with hcollect | hceiling
        · rw [hcollect]
          exact .inl ⟨rfl, fun _ herr => by cases herr⟩
        · exact .inr ⟨err, rfl, hceiling⟩

/-- **A batch of an engine with a cache follows the batch of one without.** -/
theorem computeBatch_follows {heeds : Bool} {field : String} {es : List Entity} {s : EngineState σ}
    {s₀ : EngineState τ} (hcancelled : s.cancelled = s₀.cancelled)
    (hasks : ∀ a ∈ en.batchAsks heeds field es s, asks a) (hsound : en.Sound asks start s.cache) :
    Recovers (en.computeBatch heeds field es s).1 (en₀.computeBatch heeds field es s₀).1 := by
  unfold batchAsks at hasks
  unfold computeBatch
  rw [hcatalog]
  cases hget : en.catalog.virtual? field with
  | none => exact .inl rfl
  | some v =>
    rw [hget] at hasks
    have hb : Alike (en.batchOf heeds v s) (en₀.batchOf heeds v s₀) := by
      unfold batchOf
      rw [hcatalog, hsettings]
      exact ⟨rfl, rfl, rfl, rfl⟩
    have hchunks := computeChunks_follows hc hofInputs htrusted hcatalog hsettings hnone hb
      (chunks (en.settings.batchSize - 1) es) [] (startOf es s) (startOf es s₀) hasks hsound
      ⟨hcancelled, Nat.le_refl _, Nat.le_refl _, rfl⟩
    unfold batchOf startOf at hchunks
    rw [hcatalog] at hchunks
    dsimp only
    rw [← hsettings]
    rw [← hsettings] at hchunks
    generalize en.computeChunks _ _ _ _ = run at hchunks ⊢
    generalize en₀.computeChunks _ _ _ _ = run₀ at hchunks ⊢
    obtain ⟨r, p⟩ := run
    obtain ⟨r₀, p₀⟩ := run₀
    rcases hchunks with ⟨hsame, h⟩ | ⟨err, herr, hceiling⟩
    · dsimp only at hsame h
      subst hsame
      cases r with
      | error err => exact .inl rfl
      | ok results =>
        left
        show Except.ok _ = Except.ok _
        unfold BatchOutcome.ofResults
        rw [(h results rfl).stats]
    · dsimp only at herr
      subst herr
      exact .inr ⟨err, rfl, hceiling⟩

end Running

end Engine

end FieldQuery
