import FieldQuery.Proofs.Engine.Recall

/-!
# The turns of fields

In a run over an order of fields each field has its turn, after those that it needs.

* `Visit`, `Engine.goOn` — a field in its order, and what follows its turn;
* `Moment` — a field has its turn for an entity, with the values of the fields before it and the progress
  by then; `Engine.turn` — what comes of it;
* `Engine.orderMoments`, `Engine.entityMoments`, `Engine.chunkMoments`, `Engine.chunksMoments`,
  `Engine.batchMoments` — the moments of a run, along the run itself;
* `CacheAt`, `Use`, `Uses` — a cache at a time, and the uses that lead from one to another: turns, orders
  that are looked up and put there, and time that passes;
* `Befits` — the values in a table have what is asked of the values of their fields.

What follows a turn is said once, by `goOn_cases`, and what chunks do that end well by
`computeChunks_cons_ok`.

Principal results: `uses_computeBatch` — between its turns a batch leaves the cache and the clock alone,
and `computeBatch_befits` — what the values of all turns and the default values have in common, the values
of a batch have as well, and those in the tables that its turns are given.
-/

namespace FieldQuery

/-- A field has its turn in an order: the fields after it, and the values of those before it. -/
structure Visit where
  name : String
  field : VirtualField
  rest : List String
  computed : List (String × Value)

/-- A cache at a time. -/
structure CacheAt (σ : Type) where
  cache : σ
  clock : Nat

/-- The cache and the time of a progress. -/
def Progress.cacheAt {σ : Type} (p : Progress σ) : CacheAt σ := ⟨p.cache, p.clock⟩

/-- A progress with other counts. -/
def Progress.recount {σ : Type} (p : Progress σ) (s : BatchStats) : Progress σ := { p with stats := s }

/-- Counts one more chunk. -/
def Progress.nextChunk {σ : Type} (p : Progress σ) : Progress σ :=
  p.recount { p.stats with chunks := p.stats.chunks + 1 }

/-- The cache and the time of an engine. -/
def EngineState.cacheAt {σ : Type} (s : EngineState σ) : CacheAt σ := ⟨s.cache, s.clock⟩

/-- A field has its turn for an entity. -/
structure Moment (σ : Type) where
  batch : Batch
  field : VirtualField
  entity : Entity
  /-- The values of the fields before it. -/
  computed : List (String × Value)
  progress : Progress σ

/-- What the computation of the field is given. -/
def Moment.inputs {σ : Type} (t : Moment σ) : Except ComputationError Inputs :=
  Engine.resolveInputs t.batch t.field t.entity t.computed t.progress.cancelled

namespace Engine

variable {σ : Type}

section Moments

variable (en : Engine σ)

/-- What follows the turn of a field: the fields that are left, with one more value, or the end. -/
def goOn {α : Type} (target : VirtualField) (e : Entity) (t : Visit)
    (ends : Except ComputationError Value → α) (onwards : List (String × Value) → α) :
    Except ComputationError Value → α
  | .ok value => onwards ((t.name, value) :: t.computed)
  | .error err =>
    if t.field.name = target.name ∨ err.isBatchLevel then ends (.error err)
    else if en.settings.failurePolicy = .default then
      onwards ((t.name, t.field.default) :: t.computed)
    else ends (.error (.dependencyFailed target.name e.ref t.field.name))

/-- What comes of a moment. -/
def turn (t : Moment σ) : Except ComputationError Value × Progress σ :=
  en.computeOne t.batch t.field t.entity t.computed t.progress

/-- The moments of the fields of an order. -/
def orderMoments (b : Batch) (e : Entity) :
    List String → List (String × Value) → Progress σ → List (Moment σ)
  | [], _, _ => []
  | name :: rest, computed, p =>
    match en.catalog.virtual? name with
    | none => orderMoments b e rest computed p
    | some v =>
      ⟨b, v, e, computed, p⟩ ::
        en.goOn b.target e ⟨name, v, rest, computed⟩ (fun _ => [])
          (fun table => orderMoments b e rest table (en.computeOne b v e computed p).2)
          (en.computeOne b v e computed p).1

/-- The moments for an entity. -/
def entityMoments (b : Batch) (e : Entity) (p : Progress σ) : List (Moment σ) :=
  match b.budget.checkTime p.spent with
  | .error _ => []
  | .ok _ => en.orderMoments b e b.order [] p

/-- The moments for the entities of a chunk. -/
def chunkMoments (b : Batch) : List Entity → Progress σ → List (Moment σ)
  | [], _ => []
  | e :: es, p => en.entityMoments b e p ++ chunkMoments b es (en.computeEntity b e p).2

/-- The moments for the chunks of a batch. -/
def chunksMoments (b : Batch) : List (List Entity) → Results → Progress σ → List (Moment σ)
  | [], _, _ => []
  | chunk :: rest, results, p =>
    if b.heeds && p.cancelled then []
    else match b.budget.checkTime p.spent with
      | .error _ => []
      | .ok _ =>
        let p := { p with stats := { p.stats with chunks := p.stats.chunks + 1 } }
        en.chunkMoments b chunk p ++
          match en.collect b.target (en.computeChunk b chunk p).1 results
              (en.computeChunk b chunk p).2.stats with
          | .error _ => []
          | .ok (results, stats) =>
            chunksMoments b rest results { (en.computeChunk b chunk p).2 with stats := stats }

/-- The moments of a batch. -/
def batchMoments (heeds : Bool) (field : String) (es : List Entity) (s : EngineState σ) :
    List (Moment σ) :=
  match en.catalog.virtual? field with
  | none => []
  | some v =>
    en.chunksMoments (en.batchOf heeds v s) (chunks (en.settings.batchSize - 1) es) [] (startOf es s)

end Moments

variable {en : Engine σ} {b : Batch}

/-- **After the turn of a field** the order goes on with a value of it, its own or the default one, or it
ends with a failure. -/
theorem goOn_cases (target : VirtualField) (e : Entity) (t : Visit) (r : Except ComputationError Value) :
    (∃ a, (r = .ok a ∨ a = t.field.default) ∧ ∀ {α : Type} (ends : Except ComputationError Value → α)
        (onwards : List (String × Value) → α),
        en.goOn target e t ends onwards r = onwards ((t.name, a) :: t.computed)) ∨
      ∃ err, ∀ {α : Type} (ends : Except ComputationError Value → α)
        (onwards : List (String × Value) → α), en.goOn target e t ends onwards r = ends (.error err) := by
  cases r with
  | ok value => exact .inl ⟨value, .inl rfl, fun ends onwards => rfl⟩
  | error err =>
    by_cases hstop : t.field.name = target.name ∨ err.isBatchLevel
    · exact .inr ⟨err, fun ends onwards => if_pos hstop⟩
    · by_cases hpolicy : en.settings.failurePolicy = .default
      · exact .inl ⟨t.field.default, .inr rfl, fun ends onwards =>
          (if_neg hstop).trans (if_pos hpolicy)⟩
      · exact .inr ⟨_, fun ends onwards => (if_neg hstop).trans (if_neg hpolicy)⟩

/-- The loop over the fields, by what follows the turn of a field. -/
theorem computeOrder_cons {e : Entity} {name : String} {v : VirtualField}
    (hv : en.catalog.virtual? name = some v) (rest : List String)
    (computed : List (String × Value)) (p : Progress σ) :
    en.computeOrder b e (name :: rest) computed p =
      en.goOn b.target e ⟨name, v, rest, computed⟩
        (fun r => (r, (en.computeOne b v e computed p).2))
        (fun table => en.computeOrder b e rest table (en.computeOne b v e computed p).2)
        (en.computeOne b v e computed p).1 := by
  rw [computeOrder, hv]
  dsimp only
  generalize en.computeOne b v e computed p = run
  obtain ⟨r, p'⟩ := run
  cases r with
  | ok value => rfl
  | error err => rfl

/-- A batch is what its chunks come to. -/
theorem computeBatch_of_virtual? {field : String} {v : VirtualField}
    (hv : en.catalog.virtual? field = some v) (heeds : Bool) (es : List Entity) (s : EngineState σ) :
    ∃ run, run = en.computeChunks (en.batchOf heeds v s) (chunks (en.settings.batchSize - 1) es) []
        (startOf es s) ∧
      (en.computeBatch heeds field es s).1 = run.1.map (fun results => ⟨results, run.2.stats⟩) ∧
      (en.computeBatch heeds field es s).2.cacheAt = run.2.cacheAt := by
  refine ⟨_, rfl, ?_⟩
  unfold computeBatch batchOf startOf
  rw [hv]
  dsimp only
  generalize en.computeChunks _ _ _ _ = run
  obtain ⟨r, p⟩ := run
  cases r <;> exact ⟨rfl, rfl⟩

/-- Chunks that end well: the first is computed and its results are taken over, and then the others have
their moments and end well. -/
theorem computeChunks_cons_ok {es : List Entity} {parts : List (List Entity)} {acc results : Results}
    {p : Progress σ} (h : (en.computeChunks b (es :: parts) acc p).1 = .ok results) :
    ∃ found p₁ collected, en.computeChunk b es p.nextChunk = (found, p₁) ∧
      en.collect b.target found acc p₁.stats = .ok collected ∧
      (en.computeChunks b parts collected.1 (p₁.recount collected.2)).1 = .ok results ∧
      en.chunksMoments b (es :: parts) acc p = en.chunkMoments b es p.nextChunk ++
        en.chunksMoments b parts collected.1 (p₁.recount collected.2) := by
  have hnext : { p with stats := { p.stats with chunks := p.stats.chunks + 1 } } = p.nextChunk := rfl
  rw [chunksMoments]
  unfold computeChunks at h
  split at h
  · cases h
  rename_i hheeds
  rw [if_neg hheeds]
  cases htime : b.budget.checkTime p.spent with
  | error err =>
    rw [htime] at h
    cases h
  | ok u =>
    rw [htime] at h
    dsimp only at h ⊢
    rw [hnext] at h ⊢
    cases hrun : en.computeChunk b es p.nextChunk with
    | mk found p₁ =>
      rw [hrun] at h
      dsimp only at h
      cases hcollect : en.collect b.target found acc p₁.stats with
      | error err =>
        rw [hcollect] at h
        cases h
      | ok collected =>
        rw [hcollect] at h
        exact ⟨found, p₁, collected, rfl, hcollect, h, rfl⟩

/-! ## Where moments come from -/

/-- The moments of an order are for its fields. -/
theorem mem_orderMoments {e : Entity} {names : List String} {computed : List (String × Value)}
    {p : Progress σ} {t : Moment σ} (h : t ∈ en.orderMoments b e names computed p) :
    t.batch = b ∧ t.entity = e ∧ ∃ name ∈ names, en.catalog.virtual? name = some t.field := by
  induction names generalizing computed p with
  | nil => cases h
  | cons name rest ih =>
    have hlater : ∀ {table p'}, t ∈ en.orderMoments b e rest table p' →
        t.batch = b ∧ t.entity = e ∧
          ∃ n ∈ name :: rest, en.catalog.virtual? n = some t.field := by
      intro table p' hrest
      obtain ⟨hb, he, n, hn, hfield⟩ := ih hrest
      exact ⟨hb, he, n, List.mem_cons_of_mem _ hn, hfield⟩
    unfold orderMoments at h
    cases hv : en.catalog.virtual? name with
    | none =>
      rw [hv] at h
      exact hlater h
    | some v =>
      rw [hv] at h
      rcases List.mem_cons.1 h with rfl | h
      · exact ⟨rfl, rfl, name, List.mem_cons_self, hv⟩
      · rcases goOn_cases b.target e ⟨name, v, rest, computed⟩ (en.computeOne b v e computed p).1 with
          ⟨a, -, hgo⟩ | ⟨err, hgo⟩
        · rw [hgo] at h
          exact hlater h
        · rw [hgo] at h
          cases h

theorem mem_chunkMoments {es : List Entity} {p : Progress σ} {t : Moment σ}
    (h : t ∈ en.chunkMoments b es p) : ∃ e ∈ es, ∃ p', t ∈ en.entityMoments b e p' := by
  induction es generalizing p with
  | nil => cases h
  | cons e es ih =>
    unfold chunkMoments at h
    rcases List.mem_append.1 h with h | h
    · exact ⟨e, List.mem_cons_self, p, h⟩
    · obtain ⟨e', he', hmem⟩ := ih h
      exact ⟨e', List.mem_cons_of_mem _ he', hmem⟩

theorem mem_chunksMoments {parts : List (List Entity)} {results : Results} {p : Progress σ}
    {t : Moment σ} (h : t ∈ en.chunksMoments b parts results p) :
    ∃ e ∈ parts.flatten, ∃ p', t ∈ en.entityMoments b e p' := by
  induction parts generalizing results p with
  | nil => cases h
  | cons es parts ih =>
    unfold chunksMoments at h
    split at h
    · cases h
    split at h
    · cases h
    rcases List.mem_append.1 h with h | h
    · obtain ⟨e, he, hmem⟩ := mem_chunkMoments h
      exact ⟨e, List.mem_append_left _ he, hmem⟩
    · split at h
      · cases h
      · obtain ⟨e, he, hmem⟩ := ih h
        exact ⟨e, List.mem_append_right _ he, hmem⟩

/-- A moment of a batch is one of its entities. -/
theorem mem_batchMoments {heeds : Bool} {field : String} {es : List Entity} {s : EngineState σ}
    {t : Moment σ} (h : t ∈ en.batchMoments heeds field es s) :
    ∃ v, en.catalog.virtual? field = some v ∧
      ∃ e ∈ es, ∃ p, t ∈ en.entityMoments (en.batchOf heeds v s) e p := by
  unfold batchMoments at h
  split at h
  · cases h
  · rename_i v hv
    obtain ⟨e, he, hmem⟩ := mem_chunksMoments h
    rw [flatten_chunks] at he
    exact ⟨v, hv, e, he, hmem⟩

/-! ## The cache from turn to turn -/

/-- A use of the cache of an engine, or time that passes. -/
inductive Use (σ : Type) where
  | turn (t : Moment σ)
  /-- An order is looked up under its key. -/
  | findOrder (key : String)
  /-- An order is put there for a while. -/
  | keepOrder (key : String) (ids : List EntityId) (lifetime : Nat)
  | wait (time : Nat)

/-- Uses one after the other lead from a cache at a time to a later one.  The turns are those of virtual
fields in the catalog. -/
inductive Uses (en : Engine σ) (cache : Cache σ) : CacheAt σ → List (Use σ) → CacheAt σ → Prop
  | nil (x : CacheAt σ) : Uses en cache x [] x
  | turn (t : Moment σ) {us : List (Use σ)} {y : CacheAt σ}
      (hfield : KeyMap.get? t.field.name en.catalog.virtualFields = some t.field)
      (hrest : Uses en cache (en.turn t).2.cacheAt us y) :
      Uses en cache t.progress.cacheAt (.turn t :: us) y
  | findOrder (x : CacheAt σ) (key : String) {us : List (Use σ)} {y : CacheAt σ}
      (hrest : Uses en cache ⟨(cache.get (x.clock + 1) key x.cache).2, x.clock + 1⟩ us y) :
      Uses en cache x (.findOrder key :: us) y
  | keepOrder (x : CacheAt σ) (key : String) (ids : List EntityId) (lifetime : Nat)
      {us : List (Use σ)} {y : CacheAt σ}
      (hrest : Uses en cache ⟨(cache.put (x.clock + 1) key (EntityId.encodeList ids) lifetime
        x.cache).2, x.clock + 1⟩ us y) :
      Uses en cache x (.keepOrder key ids lifetime :: us) y
  | wait (x : CacheAt σ) (time : Nat) {us : List (Use σ)} {y : CacheAt σ}
      (hrest : Uses en cache ⟨x.cache, x.clock + time⟩ us y) : Uses en cache x (.wait time :: us) y

theorem Uses.append {cache : Cache σ} {x y z : CacheAt σ} {us us' : List (Use σ)}
    (h : Uses en cache x us y) (h' : Uses en cache y us' z) : Uses en cache x (us ++ us') z := by
  induction h with
  | nil => exact h'
  | turn t hfield _ ih => exact .turn t hfield (ih h')
  | findOrder x key _ ih => exact .findOrder x key (ih h')
  | keepOrder x key ids lifetime _ ih => exact .keepOrder x key ids lifetime (ih h')
  | wait x time _ ih => exact .wait x time (ih h')

/-- Uses can be looked at in two parts. -/
theorem Uses.of_append {cache : Cache σ} {x y : CacheAt σ} {us us' : List (Use σ)}
    (h : Uses en cache x (us ++ us') y) : ∃ z, Uses en cache x us z ∧ Uses en cache z us' y := by
  induction us generalizing x with
  | nil => exact ⟨x, .nil x, h⟩
  | cons u us ih =>
    cases h with
    | turn t hfield hrest =>
      obtain ⟨z, hus, hus'⟩ := ih hrest
      exact ⟨z, .turn t hfield hus, hus'⟩
    | findOrder _ key hrest =>
      obtain ⟨z, hus, hus'⟩ := ih hrest
      exact ⟨z, .findOrder x key hus, hus'⟩
    | keepOrder _ key ids lifetime hrest =>
      obtain ⟨z, hus, hus'⟩ := ih hrest
      exact ⟨z, .keepOrder x key ids lifetime hus, hus'⟩
    | wait _ time hrest =>
      obtain ⟨z, hus, hus'⟩ := ih hrest
      exact ⟨z, .wait x time hus, hus'⟩

/-- A turn among other uses: those before it, and those after it. -/
theorem Uses.at_turn {cache : Cache σ} {x y : CacheAt σ} {us : List (Use σ)} {t : Moment σ}
    (h : Uses en cache x us y) (ht : .turn t ∈ us) : ∃ before after, us = before ++ .turn t :: after ∧
      KeyMap.get? t.field.name en.catalog.virtualFields = some t.field ∧
      Uses en cache x before t.progress.cacheAt ∧ Uses en cache (en.turn t).2.cacheAt after y := by
  obtain ⟨before, after, rfl⟩ := List.append_of_mem ht
  obtain ⟨z, hbefore, hafter⟩ := h.of_append
  cases hafter with
  | turn _ hfield hrest => exact ⟨before, after, rfl, hfield, hbefore, hrest⟩

section Uses

variable (hc : en.catalog.Lawful) (cache : Cache σ)

include hc

theorem uses_computeOrder (e : Entity) (names : List String) :
    ∀ (computed : List (String × Value)) (p : Progress σ),
      Uses en cache p.cacheAt ((en.orderMoments b e names computed p).map .turn)
        (en.computeOrder b e names computed p).2.cacheAt := by
  induction names with
  | nil =>
    intro computed p
    unfold computeOrder orderMoments
    split <;> exact .nil _
  | cons name rest ih =>
    intro computed p
    cases hv : en.catalog.virtual? name with
    | none =>
      rw [orderMoments, computeOrder, hv]
      exact ih computed p
    | some v =>
      rw [orderMoments, computeOrder_cons hv, hv]
      apply Uses.turn (⟨b, v, e, computed, p⟩ : Moment σ) (hc.get?_name hv)
      show Uses en cache (en.computeOne b v e computed p).2.cacheAt _ _
      rcases goOn_cases b.target e ⟨name, v, rest, computed⟩ (en.computeOne b v e computed p).1 with
        ⟨a, -, hgo⟩ | ⟨err, hgo⟩
      · rw [hgo, hgo]
        exact ih _ _
      · rw [hgo, hgo]
        exact .nil _

theorem uses_computeEntity (e : Entity) (p : Progress σ) :
    Uses en cache p.cacheAt ((en.entityMoments b e p).map .turn)
      (en.computeEntity b e p).2.cacheAt := by
  unfold computeEntity entityMoments
  cases b.budget.checkTime p.spent with
  | error err => exact .nil _
  | ok u => exact uses_computeOrder hc cache e b.order [] p

theorem uses_computeChunk (es : List Entity) :
    ∀ p : Progress σ,
      Uses en cache p.cacheAt ((en.chunkMoments b es p).map .turn)
        (en.computeChunk b es p).2.cacheAt := by
  induction es with
  | nil => exact fun p => .nil _
  | cons e es ih =>
    intro p
    rw [chunkMoments, List.map_append]
    exact (uses_computeEntity hc cache e p).append (ih _)

theorem uses_computeChunks (parts : List (List Entity)) :
    ∀ (results : Results) (p : Progress σ),
      Uses en cache p.cacheAt ((en.chunksMoments b parts results p).map .turn)
        (en.computeChunks b parts results p).2.cacheAt := by
  induction parts with
  | nil => exact fun results p => .nil _
  | cons es parts ih =>
    intro results p
    unfold computeChunks chunksMoments
    split
    · exact .nil _
    cases b.budget.checkTime p.spent with
    | error err => exact .nil _
    | ok u =>
      dsimp only
      have hchunk := uses_computeChunk (b := b) hc cache es p.nextChunk
      unfold Progress.nextChunk Progress.recount at hchunk
      generalize en.computeChunk b es _ = run at hchunk ⊢
      obtain ⟨found, p₁⟩ := run
      rw [List.map_append]
      apply Uses.append hchunk
      dsimp only
      cases en.collect b.target found results p₁.stats with
      | error err => exact .nil _
      | ok collected => exact ih collected.1 { p₁ with stats := collected.2 }

/-- **Between its turns a batch leaves the cache and the clock alone.** -/
theorem uses_computeBatch (heeds : Bool) (field : String) (es : List Entity) (s : EngineState σ) :
    Uses en cache s.cacheAt ((en.batchMoments heeds field es s).map .turn)
      (en.computeBatch heeds field es s).2.cacheAt := by
  cases hv : en.catalog.virtual? field with
  | none =>
    unfold batchMoments computeBatch
    rw [hv]
    exact .nil _
  | some v =>
    obtain ⟨run, hrun, -, hcacheAt⟩ := computeBatch_of_virtual? hv heeds es s
    rw [hcacheAt, hrun]
    unfold batchMoments
    rw [hv]
    exact uses_computeChunks hc cache _ [] (startOf es s)

end Uses

/-! ## Values from turn to turn -/

/-- The values in a table have what is asked of the values of their fields. -/
def Befits (en : Engine σ) (good : VirtualField → Value → Prop)
    (computed : List (String × Value)) : Prop :=
  ∀ x ∈ computed, ∀ v, en.catalog.virtual? x.1 = some v → good v x.2

section Values

variable {good : VirtualField → Value → Prop}
  (hdefault : ∀ name v, en.catalog.virtual? name = some v → good v v.default)

include hdefault

theorem computeOrder_befits (e : Entity) (names : List String) :
    ∀ (computed : List (String × Value)) (p : Progress σ),
      (∀ t ∈ en.orderMoments b e names computed p, ∀ a, (en.turn t).1 = .ok a → good t.field a) →
      en.Befits good computed →
      (∀ t ∈ en.orderMoments b e names computed p, en.Befits good t.computed) ∧
        ∀ v a, en.catalog.virtual? b.target.name = some v →
          (en.computeOrder b e names computed p).1 = .ok a → good v a := by
  induction names with
  | nil =>
    intro computed p _ hcomputed
    refine ⟨fun t ht => absurd ht List.not_mem_nil, fun v a hv hok => ?_⟩
    rw [computeOrder] at hok
    split at hok
    · rename_i value hvalue
      cases hok
      exact hcomputed _ (Assoc.mem_of_lookup hvalue) v hv
    · cases hok
  | cons name rest ih =>
    intro computed p hturns hcomputed
    cases hv : en.catalog.virtual? name with
    | none =>
      rw [orderMoments, hv] at hturns ⊢
      rw [computeOrder, hv]
      exact ih computed p hturns hcomputed
    | some v =>
      rw [orderMoments, hv] at hturns ⊢
      rw [computeOrder_cons hv]
      obtain ⟨hone, hrest⟩ := List.forall_mem_cons.1 hturns
      have hcons : ∀ a, good v a → en.Befits good ((name, a) :: computed) := fun a ha =>
        List.forall_mem_cons.2 ⟨fun w hw => Option.some.inj (hv.symm.trans hw) ▸ ha, hcomputed⟩
      rw [List.forall_mem_cons, and_assoc]
      refine ⟨hcomputed, ?_⟩
      dsimp only at hone hrest ⊢
      have hone : ∀ a, (en.computeOne b v e computed p).1 = .ok a → good v a := hone
      generalize en.computeOne b v e computed p = run at hone hrest ⊢
      obtain ⟨r, p'⟩ := run
      rcases goOn_cases b.target e ⟨name, v, rest, computed⟩ r with ⟨a, ha, hgo⟩ | ⟨err, hgo⟩
      · rw [hgo] at hrest
        rw [hgo, hgo]
        refine ih _ p' hrest (hcons a ?_)
        rcases ha with ha | rfl
        · exact hone a ha
        · exact hdefault name v hv
      · rw [hgo, hgo]
        exact ⟨fun t ht => absurd ht List.not_mem_nil, fun w a _ hok => by cases hok⟩

theorem computeEntity_befits (e : Entity) (p : Progress σ)
    (hturns : ∀ t ∈ en.entityMoments b e p, ∀ a, (en.turn t).1 = .ok a → good t.field a) :
    (∀ t ∈ en.entityMoments b e p, en.Befits good t.computed) ∧
      ∀ v a, en.catalog.virtual? b.target.name = some v → (en.computeEntity b e p).1 = .ok a →
        good v a := by
  unfold entityMoments at hturns ⊢
  unfold computeEntity
  cases htime : b.budget.checkTime p.spent with
  | error err => exact ⟨fun t ht => absurd ht List.not_mem_nil, fun v a _ hok => by cases hok⟩
  | ok u =>
    rw [htime] at hturns
    exact computeOrder_befits hdefault e b.order [] p hturns fun x hx => absurd hx List.not_mem_nil

/-- The results of a chunk, and what its turns are given. -/
theorem computeChunk_befits (es : List Entity) :
    ∀ p : Progress σ,
      (∀ t ∈ en.chunkMoments b es p, ∀ a, (en.turn t).1 = .ok a → good t.field a) →
      (∀ t ∈ en.chunkMoments b es p, en.Befits good t.computed) ∧
        ∀ v, en.catalog.virtual? b.target.name = some v →
          ∀ r ∈ (en.computeChunk b es p).1, ∀ a, r.2 = .ok a → good v a := by
  induction es with
  | nil => exact fun p _ => ⟨fun t ht => absurd ht List.not_mem_nil, fun v _ r hr => (absurd hr List.not_mem_nil)⟩
  | cons e es ih =>
    intro p hturns
    unfold chunkMoments at hturns ⊢
    obtain ⟨hfirst, hrest⟩ := List.forall_mem_append.1 hturns
    obtain ⟨htables, hresult⟩ := computeEntity_befits hdefault e p hfirst
    obtain ⟨htables', hresults⟩ := ih _ hrest
    refine ⟨List.forall_mem_append.2 ⟨htables, htables'⟩, fun v hv => ?_⟩
    unfold computeChunk
    exact List.forall_mem_cons.2 ⟨fun a hok => hresult v a hv hok, hresults v hv⟩

omit hdefault in
/-- What is taken over are the results and the default value. -/
theorem collect_befits {v : VirtualField} (hv : good v v.default) (found : Results) :
    ∀ (acc : Results) (stats : BatchStats) (out : Results × BatchStats),
      (∀ r ∈ found, ∀ a, r.2 = .ok a → good v a) → (∀ r ∈ acc, ∀ a, r.2 = .ok a → good v a) →
      en.collect v found acc stats = .ok out → ∀ r ∈ out.1, ∀ a, r.2 = .ok a → good v a := by
  induction found with
  | nil =>
    intro acc stats out _ hacc hout
    cases hout
    exact hacc
  | cons r found ih =>
    intro acc stats out hfound hacc hout
    obtain ⟨hfirst, hrest⟩ := List.forall_mem_cons.1 hfound
    have hset : ∀ (id : EntityId) (x : Except ComputationError Value), (∀ a, x = .ok a → good v a) →
        ∀ r ∈ Assoc.set id x acc, ∀ a, r.2 = .ok a → good v a := by
      intro id x hx r hr
      rcases Assoc.mem_set hr with rfl | hr
      · exact hx
      · exact hacc r hr
    obtain ⟨id, x⟩ := r
    cases x with
    | ok value => exact ih _ stats out hrest (hset id _ hfirst) hout
    | error err =>
      unfold collect at hout
      split at hout
      · cases hout
      · have hsettle : ∀ settled stats', en.settle v err stats = .ok (settled, stats') →
            ∀ a, settled = .ok a → good v a := by
          intro settled stats' hsettled a ha
          unfold settle at hsettled
          dsimp only at hsettled
          split at hsettled
          · cases hsettled
          split at hsettled
          · cases hsettled
          split at hsettled
          · cases hsettled
            cases ha
          · cases hsettled
            cases ha
            exact hv
        cases hsettled : en.settle v err stats with
        | error err' =>
          rw [hsettled] at hout
          cases hout
        | ok settled =>
          rw [hsettled] at hout
          exact ih _ settled.2 out hrest (hset id _ (hsettle _ _ hsettled)) hout

theorem computeChunks_befits {v : VirtualField} (hv : en.catalog.virtual? b.target.name = some v)
    (htarget : b.target = v) (parts : List (List Entity)) :
    ∀ (acc : Results) (p : Progress σ),
      (∀ t ∈ en.chunksMoments b parts acc p, ∀ a, (en.turn t).1 = .ok a → good t.field a) →
      (∀ r ∈ acc, ∀ a, r.2 = .ok a → good v a) →
      (∀ t ∈ en.chunksMoments b parts acc p, en.Befits good t.computed) ∧
        ∀ results, (en.computeChunks b parts acc p).1 = .ok results →
          ∀ r ∈ results, ∀ a, r.2 = .ok a → good v a := by
  induction parts with
  | nil =>
    intro acc p _ hacc
    refine ⟨fun t ht => absurd ht List.not_mem_nil, fun results hok => ?_⟩
    cases hok
    exact hacc
  | cons es parts ih =>
    intro acc p hturns hacc
    unfold chunksMoments at hturns ⊢
    unfold computeChunks
    split at hturns
    · rename_i hheeds
      rw [if_pos hheeds, if_pos hheeds]
      exact ⟨fun t ht => absurd ht List.not_mem_nil, fun results hok => by cases hok⟩
    rename_i hheeds
    rw [if_neg hheeds, if_neg hheeds]
    cases htime : b.budget.checkTime p.spent with
    | error err => exact ⟨fun t ht => absurd ht List.not_mem_nil, fun results hok => by cases hok⟩
    | ok u =>
      rw [htime] at hturns
      dsimp only at hturns ⊢
      obtain ⟨hfirst, hrest⟩ := List.forall_mem_append.1 hturns
      obtain ⟨htables, hresults⟩ := computeChunk_befits hdefault es _ hfirst
      rw [List.forall_mem_append, and_assoc]
      refine ⟨htables, ?_⟩
      have hresults := hresults v hv
      generalize en.computeChunk b es _ = run at hresults hrest ⊢
      obtain ⟨found, p₁⟩ := run
      dsimp only at hresults hrest ⊢
      cases hcollect : en.collect b.target found acc p₁.stats with
      | error err => exact ⟨fun t ht => absurd ht List.not_mem_nil, fun results hok => by cases hok⟩
      | ok collected =>
        rw [hcollect] at hrest
        rw [htarget] at hcollect
        exact ih collected.1 _ hrest (collect_befits (hdefault _ v hv) found acc p₁.stats
          collected hresults hacc hcollect)

/-- **What the values of all turns have, the values of a batch have**, and those in the tables that its
turns are given. -/
theorem computeBatch_befits (hc : en.catalog.Lawful) {heeds : Bool} {field : String}
    {es : List Entity} {s : EngineState σ}
    (hturns : ∀ t ∈ en.batchMoments heeds field es s, ∀ a, (en.turn t).1 = .ok a → good t.field a) :
    (∀ t ∈ en.batchMoments heeds field es s, en.Befits good t.computed) ∧
      ∀ v o, en.catalog.virtual? field = some v → (en.computeBatch heeds field es s).1 = .ok o →
        ∀ r ∈ o.results, ∀ a, r.2 = .ok a → good v a := by
  unfold batchMoments at hturns ⊢
  cases hv : en.catalog.virtual? field with
  | none => exact ⟨fun t ht => absurd ht List.not_mem_nil, fun v _ hv' => by cases hv'⟩
  | some v =>
    rw [hv] at hturns
    have htarget : en.catalog.virtual? v.name = some v := by
      have hget := hc.get?_name hv
      rw [hc.virtual?_eq (Catalog.mem_keys_of_get? hget)]
      exact hget
    obtain ⟨htables, hresults⟩ := computeChunks_befits hdefault (b := en.batchOf heeds v s) htarget rfl
      (chunks (en.settings.batchSize - 1) es) [] (startOf es s) hturns fun r hr => absurd hr List.not_mem_nil
    refine ⟨htables, fun w o hw hok => ?_⟩
    cases hw
    obtain ⟨run, hrun, houtcome, -⟩ := computeBatch_of_virtual? hv heeds es s
    rw [houtcome] at hok
    rw [← hrun] at hresults
    obtain ⟨r, p⟩ := run
    cases r with
    | error err => cases hok
    | ok results =>
      cases hok
      exact hresults results rfl

end Values

end Engine

end FieldQuery
