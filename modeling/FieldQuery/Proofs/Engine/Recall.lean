import FieldQuery.Proofs.Cache.History
import FieldQuery.Proofs.Engine.Asks
import FieldQuery.Proofs.Engine.Entity
import FieldQuery.Proofs.Value.Codec

/-!
# What the cache of an engine holds

Everything that an engine puts into its cache is the answer to an ask, under the key of that ask.

* `Backed` — a text is the encoded answer to one of some asks, under its key;
* `Trusted` — a cache that is honest, and asks that can be told apart by their keys;
* `Sound` — a state of the cache in which everything is backed;
* `spend` — the progress after the time of an outcome;
* `Still` — a progress that differs in its cache and its counts only;
* `Recalls` — what one field comes to;
* `Steady` — single fields keep a property of the cache.

Principal results: `computeBatch_steady` — what single fields keep of a cache, a batch keeps;
`findCached_answer` — what is found for an ask is its answer; `computeOne_recalls` — a field is recalled
as it would be computed, and leaves a sound cache.
-/

namespace FieldQuery

/-- What has been counted of the results, apart from computations and uses of a cache. -/
def BatchStats.ofResults (s : BatchStats) : BatchStats :=
  { s with computed := 0, cacheHits := 0, cacheErrors := 0 }

namespace Engine

variable {σ : Type}

/-- A text is the encoded answer to an ask, under the key of the ask. -/
def Backed (en : Engine σ) (asks : Ask → Prop) (key content : String) : Prop :=
  ∃ a v value, asks a ∧ KeyMap.get? a.field en.catalog.virtualFields = some v ∧
    key = a.key en.digest ∧ a.answer v = .ok value ∧ content = value.encode

/-- A state of the cache, if there is one, in which everything is backed. -/
def Sound (en : Engine σ) (asks : Ask → Prop) (start s : σ) : Prop :=
  ∀ cache, en.cache = some cache → cache.Faithful start (en.Backed asks) s

/-- A cache that is honest from a state on.  The asks of a field can be told apart by their keys, and
their answers by their texts. -/
structure Trusted (en : Engine σ) (asks : Ask → Prop) (start : σ) (cache : Cache σ) : Prop where
  honest : cache.IsHonest Value.decode? start
  noColon : ∀ p ∈ en.catalog.virtualFields, NoColon p.2.name
  keys : ∀ a a', asks a → asks a' → a.field = a'.field → a.key en.digest = a'.key en.digest → a = a'
  kept : ∀ a v value, asks a → KeyMap.get? a.field en.catalog.virtualFields = some v →
    a.answer v = .ok value → value.IsKept

theorem sound_start {en : Engine σ} {asks : Ask → Prop} {start : σ} : en.Sound asks start start :=
  fun _ _ => Cache.faithful_start

/-! ## One computation -/

/-- The progress after an outcome, with the computation counted if it succeeded. -/
def spend (o : Outcome) (p : Progress σ) : Progress σ :=
  match o.value with
  | .error _ => p.after o
  | .ok _ => (p.after o).countComputed

section Spend

variable (o : Outcome) (p : Progress σ)

@[simp] theorem spend_spent : (spend o p).spent = p.spent + o.duration := by
  unfold spend
  split <;> rfl

@[simp] theorem spend_used : (spend o p).used = p.used := by
  unfold spend
  split <;> rfl

@[simp] theorem spend_cancelled : (spend o p).cancelled = (p.cancelled || o.cancels) := by
  unfold spend
  split <;> rfl

@[simp] theorem spend_cache : (spend o p).cache = p.cache := by
  unfold spend
  split <;> rfl

@[simp] theorem spend_stats : (spend o p).stats.ofResults = p.stats.ofResults := by
  unfold spend
  split <;> rfl

end Spend

/-- A computation is accepted first, and then taken over. -/
theorem compute_eq (b : Batch) (v : VirtualField) (e : Entity) (i : Inputs) (p : Progress σ) :
    compute b v e i p =
      match v.accept e (v.computation e i) with
      | .error err => (.error err, spend (v.computation e i) p)
      | .ok value => takeOver b.budget value (spend (v.computation e i) p) := by
  unfold compute VirtualField.accept spend
  dsimp only
  cases (v.computation e i).value with
  | error reason => rfl
  | ok value =>
    dsimp only
    split <;> rfl

@[simp] theorem takeOver_cache (b : Budget) (value : Value) (p : Progress σ) :
    (takeOver b value p).2.cache = p.cache := by
  unfold takeOver
  split
  · rfl
  · split <;> rfl

@[simp] theorem compute_cache (b : Batch) (v : VirtualField) (e : Entity) (i : Inputs)
    (p : Progress σ) : (compute b v e i p).2.cache = p.cache := by
  rw [compute_eq]
  split <;> simp

theorem takeOver_ok {b : Budget} {value value' : Value} {p p' : Progress σ}
    (h : takeOver b value p = (.ok value', p')) : value' = value := by
  unfold takeOver at h
  split at h
  · cases h
  · split at h
    · cases h
    · cases h
      rfl

/-- A value that is computed has been accepted. -/
theorem accept_of_compute {b : Batch} {v : VirtualField} {e : Entity} {i : Inputs} {value : Value}
    {p p' : Progress σ} (h : compute b v e i p = (.ok value, p')) :
    v.accept e (v.computation e i) = .ok value := by
  rw [compute_eq] at h
  cases haccept : v.accept e (v.computation e i) with
  | error err =>
    rw [haccept] at h
    cases h
  | ok value' =>
    rw [haccept] at h
    rw [takeOver_ok h]

/-! ## One slot -/

/-- A progress that differs from another one in the cache and its counts only. -/
structure Still (p p' : Progress σ) : Prop where
  cancelled : p'.cancelled = p.cancelled
  spent : p'.spent = p.spent
  used : p'.used = p.used
  stats : p'.stats.ofResults = p.stats.ofResults

theorem Still.refl (p : Progress σ) : Still p p := ⟨rfl, rfl, rfl, rfl⟩

/-- The state of the cache after a look-up, and what is found by it. -/
theorem findCached_cases (slot : Slot σ) (p : Progress σ) :
    (findCached slot p).2.cache = (slot.cache.get (p.clock + 1) slot.key p.cache).2 ∧
      Still p (findCached slot p).2 ∧
      ∀ value, (findCached slot p).1 = some value →
        (slot.cache.fetch Value.decode? (p.clock + 1) slot.key p.cache).1 = .ok (some value) := by
  unfold findCached
  dsimp only
  rw [← Cache.fetch_snd slot.cache Value.decode?]
  generalize slot.cache.fetch Value.decode? (p.clock + 1) slot.key p.cache = fetched
  obtain ⟨found, s⟩ := fetched
  cases found with
  | error err => exact ⟨rfl, ⟨rfl, rfl, rfl, rfl⟩, fun value h => nomatch h⟩
  | ok found =>
    cases found with
    | none => exact ⟨rfl, ⟨rfl, rfl, rfl, rfl⟩, fun value h => nomatch h⟩
    | some value' =>
      refine ⟨rfl, ⟨rfl, rfl, rfl, rfl⟩, ?_⟩
      rintro value ⟨⟩
      rfl

/-- The state of the cache after a value has been put there. -/
theorem remember_cases (lifetime : Nat) (value : Value) (slot : Slot σ) (p : Progress σ) :
    (remember lifetime value slot p).cache =
        (slot.cache.put (p.clock + 1) slot.key value.encode lifetime p.cache).2 ∧
      Still p (remember lifetime value slot p) := by
  unfold remember
  dsimp only
  split
  · exact ⟨rfl, ⟨rfl, rfl, rfl, rfl⟩⟩
  · exact ⟨rfl, ⟨rfl, rfl, rfl, rfl⟩⟩

/-- A value is looked up under the key of its ask, or not at all. -/
theorem slot?_cases (en : Engine σ) (v : VirtualField) (e : Entity) (i : Inputs) :
    en.slot? v e i = none ∨
      ∃ cache, en.cache = some cache ∧ v.cacheable = true ∧
        en.slot? v e i = some ⟨cache, cacheKey en.digest v.name e i⟩ := by
  unfold slot?
  cases hcache : en.cache with
  | none => exact .inl rfl
  | some cache =>
    cases hcacheable : v.cacheable with
    | false => exact .inl rfl
    | true => exact .inr ⟨cache, rfl, rfl, rfl⟩

/-- What one field comes to: it lacks an input, its value is recalled, or it is computed. -/
inductive Recalls (b : Batch) (v : VirtualField) (e : Entity) (computed : List (String × Value))
    (p : Progress σ) : Except ComputationError Value × Progress σ → Prop
  | lacking {err : ComputationError}
      (hinputs : resolveInputs b v e computed p.cancelled = .error err) :
      Recalls b v e computed p (.error err, p)
  | recalled {i : Inputs} {value : Value} {p' : Progress σ}
      (hinputs : resolveInputs b v e computed p.cancelled = .ok i)
      (hvalue : v.accept e (v.computation e i) = .ok value) (hstill : Still p p') :
      Recalls b v e computed p (.ok value, p')
  | computed {i : Inputs} {p₁ p' : Progress σ}
      (hinputs : resolveInputs b v e computed p.cancelled = .ok i) (hstill : Still p p₁)
      (hstill' : Still (compute b v e i p₁).2 p') :
      Recalls b v e computed p ((compute b v e i p₁).1, p')

/-! ## Whole batches -/

/-- Single fields whose asks are among given ones keep a property of the cache. -/
def Steady (en : Engine σ) (asks : Ask → Prop) (good : σ → Prop) : Prop :=
  ∀ (b : Batch) (v : VirtualField) (e : Entity) (computed : List (String × Value)) (p : Progress σ),
    KeyMap.get? v.name en.catalog.virtualFields = some v → (∀ a ∈ oneAsks b v e computed p, asks a) →
      good p.cache → good (en.computeOne b v e computed p).2.cache

section Steady

variable {en : Engine σ} {asks : Ask → Prop} {good : σ → Prop} (hc : en.catalog.Lawful)
  (hsteady : en.Steady asks good) (b : Batch)

include hc hsteady

/-- What single fields keep, the fields of an order keep. -/
theorem computeOrder_steady (e : Entity) (names : List String) :
    ∀ (computed : List (String × Value)) (p : Progress σ),
      (∀ a ∈ en.orderAsks b e names computed p, asks a) → good p.cache →
      good (en.computeOrder b e names computed p).2.cache := by
  induction names with
  | nil =>
    intro computed p _ hgood
    unfold computeOrder
    split <;> exact hgood
  | cons name names ih =>
    intro computed p hasks hgood
    unfold orderAsks at hasks
    unfold computeOrder
    cases hget : en.catalog.virtual? name with
    | none =>
      rw [hget] at hasks
      exact ih computed p hasks hgood
    | some v =>
      rw [hget] at hasks
      dsimp only at hasks ⊢
      have hone := hsteady b v e computed p (hc.get?_name hget)
        (fun a ha => hasks a (List.mem_append_left _ ha)) hgood
      have hrest := fun a ha => hasks a (List.mem_append_right _ ha)
      generalize en.computeOne b v e computed p = run at hone hrest ⊢
      obtain ⟨r, p₁⟩ := run
      cases r with
      | ok value => exact ih _ p₁ hrest hone
      | error err =>
        dsimp only at hrest hone ⊢
        split
        · exact hone
        · rename_i hlevel
          rw [if_neg hlevel] at hrest
          split
          · rename_i hpolicy
            rw [if_pos hpolicy] at hrest
            exact ih _ p₁ hrest hone
          · exact hone

theorem computeEntity_steady (e : Entity) {p : Progress σ}
    (hasks : ∀ a ∈ en.entityAsks b e p, asks a) (hgood : good p.cache) :
    good (en.computeEntity b e p).2.cache := by
  unfold entityAsks at hasks
  unfold computeEntity
  split
  · exact hgood
  · rename_i htime
    rw [htime] at hasks
    exact computeOrder_steady hc hsteady b e b.order [] p hasks hgood

theorem computeChunk_steady (es : List Entity) :
    ∀ p : Progress σ, (∀ a ∈ en.chunkAsks b es p, asks a) → good p.cache →
      good (en.computeChunk b es p).2.cache := by
  induction es with
  | nil => exact fun p _ hgood => hgood
  | cons e es ih =>
    intro p hasks hgood
    unfold chunkAsks at hasks
    unfold computeChunk
    exact ih _ (fun a ha => hasks a (List.mem_append_right _ ha))
      (computeEntity_steady hc hsteady b e (fun a ha => hasks a (List.mem_append_left _ ha)) hgood)

theorem computeChunks_steady (parts : List (List Entity)) :
    ∀ (results : Results) (p : Progress σ), (∀ a ∈ en.chunksAsks b parts results p, asks a) →
      good p.cache → good (en.computeChunks b parts results p).2.cache := by
  induction parts with
  | nil => exact fun results p _ hgood => hgood
  | cons es parts ih =>
    intro results p hasks hgood
    unfold chunksAsks at hasks
    unfold computeChunks
    split
    · exact hgood
    · rename_i hheeds
      rw [if_neg hheeds] at hasks
      cases htime : b.budget.checkTime p.spent with
      | error err => exact hgood
      | ok u =>
        rw [htime] at hasks
        dsimp only at hasks ⊢
        have hchunk := computeChunk_steady hc hsteady b es
          { p with stats := { p.stats with chunks := p.stats.chunks + 1 } }
          (fun a ha => hasks a (List.mem_append_left _ ha)) hgood
        have hrest := fun a ha => hasks a (List.mem_append_right _ ha)
        generalize en.computeChunk b es
          { p with stats := { p.stats with chunks := p.stats.chunks + 1 } } = run at hchunk hrest ⊢
        obtain ⟨found, p₁⟩ := run
        dsimp only at hchunk hrest ⊢
        cases hcollect : en.collect b.target found results p₁.stats with
        | error err => exact hchunk
        | ok collected =>
          rw [hcollect] at hrest
          exact ih collected.1 { p₁ with stats := collected.2 } hrest hchunk

omit b in
/-- **What single fields keep, a batch keeps.** -/
theorem computeBatch_steady {heeds : Bool} {field : String} {es : List Entity} {s : EngineState σ}
    (hasks : ∀ a ∈ en.batchAsks heeds field es s, asks a) (hgood : good s.cache) :
    good (en.computeBatch heeds field es s).2.cache := by
  unfold batchAsks at hasks
  unfold computeBatch
  split
  · exact hgood
  · rename_i v hget
    rw [hget] at hasks
    have hchunks := computeChunks_steady hc hsteady (en.batchOf heeds v s)
      (chunks (en.settings.batchSize - 1) es) [] (startOf es s) hasks hgood
    unfold batchOf startOf at hchunks
    dsimp only
    generalize en.computeChunks _ _ _ _ = run at hchunks ⊢
    obtain ⟨found, p⟩ := run
    cases found with
    | error err => exact hchunks
    | ok results => exact hchunks

end Steady

section Sound

variable {en : Engine σ} {asks : Ask → Prop} {start : σ} (hc : en.catalog.Lawful)
  (hofInputs : en.catalog.IsOfInputs)
  (htrusted : ∀ cache, en.cache = some cache → en.Trusted asks start cache)

include hc hofInputs htrusted

/-- **What is found for an ask is its answer.** -/
theorem findCached_answer {cache : Cache σ} (hcache : en.cache = some cache) {v : VirtualField}
    (hv : KeyMap.get? v.name en.catalog.virtualFields = some v) {e : Entity} {i : Inputs}
    (hask : asks (.of v e i)) {p : Progress σ} (hsound : en.Sound asks start p.cache) {value : Value}
    (hfound : (findCached ⟨cache, cacheKey en.digest v.name e i⟩ p).1 = some value) :
    v.accept e (v.computation e i) = .ok value := by
  have htrust := htrusted cache hcache
  have hfetch := (findCached_cases ⟨cache, cacheKey en.digest v.name e i⟩ p).2.2 value hfound
  obtain ⟨content, ⟨a, w, value', hasked, hw, hkey, hanswer, hcontent⟩, hread⟩ :=
    htrust.honest.fetch (hsound cache hcache) hfetch
  rw [← Ask.key_of] at hkey
  -- a key tells its field, and then its ask
  have hfield : (Ask.of v e i).field = a.field := by
    have ha := htrust.noColon _ (KeyMap.mem_of_get? hv)
    have ha' := htrust.noColon _ (KeyMap.mem_of_get? hw)
    rw [hc.name_of_get? hw] at ha'
    exact Ask.field_eq_of_key ha ha' hkey
  have hsame : Ask.of v e i = a := htrust.keys _ a hask hasked hfield hkey
  subst hsame
  obtain rfl : v = w := Option.some.inj (hv.symm.trans hw)
  have hkept := htrust.kept _ v value' hasked hw hanswer
  rw [hcontent] at hread
  rw [← Ask.answer_of (hofInputs _ (KeyMap.mem_of_get? hv)), hanswer, Value.decode?_encode hkept hread]

/-- **One field is recalled as it would be computed**, and the cache stays sound. -/
theorem computeOne_recalls (b : Batch) {v : VirtualField}
    (hv : KeyMap.get? v.name en.catalog.virtualFields = some v) (e : Entity)
    (computed : List (String × Value)) {p : Progress σ}
    (hasks : ∀ a ∈ oneAsks b v e computed p, asks a) (hsound : en.Sound asks start p.cache) :
    Recalls b v e computed p (en.computeOne b v e computed p) ∧
      en.Sound asks start (en.computeOne b v e computed p).2.cache := by
  unfold computeOne
  unfold oneAsks at hasks
  cases hinputs : resolveInputs b v e computed p.cancelled with
  | error err => exact ⟨.lacking hinputs, hsound⟩
  | ok i =>
    rw [hinputs] at hasks
    dsimp only at hasks ⊢
    rcases en.slot?_cases v e i with hnone | ⟨cache, hcache, hcacheable, hslot⟩
    · rw [hnone]
      refine ⟨.computed hinputs (.refl p) (.refl _), ?_⟩
      rw [compute_cache]
      exact hsound
    · have hask : asks (.of v e i) := hasks _ (by rw [if_pos hcacheable]; exact List.mem_singleton_self _)
      have hlook := findCached_cases ⟨cache, cacheKey en.digest v.name e i⟩ p
      have hanswer := @findCached_answer σ en asks start hc hofInputs htrusted cache hcache v hv e i
        hask p hsound
      have hsound' : en.Sound asks start
          (findCached ⟨cache, cacheKey en.digest v.name e i⟩ p).2.cache := by
        rw [hlook.1]
        intro cache' hcache'
        obtain rfl : cache = cache' := Option.some.inj (hcache.symm.trans hcache')
        exact (hsound cache hcache).get _ _
      rw [hslot]
      dsimp only
      unfold findOrCompute
      generalize findCached ⟨cache, cacheKey en.digest v.name e i⟩ p = looked at hlook hanswer hsound' ⊢
      obtain ⟨found, p₁⟩ := looked
      obtain ⟨-, hstill, -⟩ := hlook
      cases found with
      | some value => exact ⟨.recalled hinputs (hanswer rfl) hstill, hsound'⟩
      | none =>
        have hcomputed : (compute b v e i p₁).2.cache = p₁.cache := compute_cache b v e i p₁
        have haccept := fun value p' => @accept_of_compute σ b v e i value p₁ p'
        have hway : ∀ p', Still (compute b v e i p₁).2 p' →
            Recalls b v e computed p ((compute b v e i p₁).1, p') :=
          fun _ => .computed hinputs hstill
        dsimp only at hsound' ⊢
        generalize compute b v e i p₁ = run at hcomputed haccept hway ⊢
        obtain ⟨r, p₂⟩ := run
        dsimp only at hcomputed
        cases r with
        | error err =>
          refine ⟨hway p₂ (.refl _), ?_⟩
          rw [hcomputed]
          exact hsound'
        | ok value =>
          obtain ⟨hput, hremember⟩ := remember_cases (en.lifetime v) value
            ⟨cache, cacheKey en.digest v.name e i⟩ p₂
          refine ⟨hway _ hremember, ?_⟩
          dsimp only
          rw [hput]
          intro cache' hcache'
          obtain rfl : cache = cache' := Option.some.inj (hcache.symm.trans hcache')
          rw [hcomputed]
          refine (hsound' cache hcache).put _ ⟨.of v e i, v, value, hask, hv, rfl, ?_, rfl⟩ _
          rw [Ask.answer_of (hofInputs _ (KeyMap.mem_of_get? hv))]
          exact haccept value p₂ rfl

/-- Single fields keep the cache sound. -/
theorem steady_sound : en.Steady asks (en.Sound asks start) :=
  fun b _ e computed _ hv hasks hsound =>
    (computeOne_recalls hc hofInputs htrusted b hv e computed hasks hsound).2

end Sound

end Engine

end FieldQuery
