import FieldQuery.Proofs.Engine.Counts
import FieldQuery.Proofs.Listing.Recast

/-!
# What failed computations say

An engine whose computations all give one reason when they fail takes every step of the engine whose
computations give their own reasons. It only says less about failures.

* `ComputationError.hushed` — the error with one reason, `Engine.nullRefused`, in the place of all reasons
  in it; it is the only one that an engine gives itself;
* `hush`, `hushRun` — a result and a run in which errors are hushed;
* `Computation.hushed` and so on up to `Engine.hushed` — computations that give no other reason;
* `SameButReasons` — of two errors, fields or catalogs, which differ in reasons at most.

Principal results: `response_hushed` — the client learns nothing of reasons; `compute_hushed` and
`computeOne_hushed` — one field, and from them by induction `computeOrder_hushed`, `computeChunk_hushed`,
`collect_hushed`, `computeChunks_hushed` and `computeBatch_hushed`; `Catalog.SameButReasons.hushed` — what
differs in reasons only is the same when it is hushed.
-/

namespace FieldQuery

/-! ## Errors -/

namespace ComputationError

/-- The error with one and the same reason in the place of every reason in it. -/
def hushed : ComputationError → ComputationError
  | .callbackFailed field entity _ => .callbackFailed field entity Engine.nullRefused
  | .batchFailed field failed cause => .batchFailed field failed cause.hushed
  | err => err

variable (err : ComputationError)

@[simp] theorem code_hushed : err.hushed.code = err.code := by
  cases err <;> rfl

@[simp] theorem field_hushed : err.hushed.field = err.field := by
  cases err <;> rfl

@[simp] theorem isBatchLevel_hushed : err.hushed.isBatchLevel = err.isBatchLevel := by
  cases err <;> rfl

@[simp] theorem entity?_hushed : err.hushed.entity? = err.entity? := by
  induction err with
  | batchFailed field failed cause ih => exact ih
  | _ => rfl

/-- Of its cause a failed batch tells the code. -/
@[simp] theorem particulars_hushed : err.hushed.particulars = err.particulars := by
  cases err with
  | batchFailed field failed cause =>
    show [("failed", count failed), ("cause", cause.hushed.code)] = _
    rw [code_hushed]
    rfl
  | _ => rfl

@[simp] theorem context_hushed : err.hushed.context = err.context := by
  unfold context
  rw [entity?_hushed, field_hushed, particulars_hushed]

/-- **The client learns nothing of reasons.** -/
theorem response_hushed : (Error.computation err.hushed).response = (Error.computation err).response := by
  unfold Error.response Error.clientMessage Error.code
  dsimp only
  rw [code_hushed, context_hushed, entity?_hushed, field_hushed]

/-- A ceiling has no reason. -/
theorem IsCeiling.hushed {err : ComputationError} (h : err.IsCeiling) : err.hushed = err := by
  cases err with
  | timeoutExceeded => rfl
  | memoryLimitExceeded => rfl
  | _ => exact absurd h id

end ComputationError

/-- What is made of a result, its error hushed. -/
def hush {α β : Type} (f : α → β) (x : Except ComputationError α) : Except ComputationError β :=
  (x.map f).mapError ComputationError.hushed

theorem hush_eq_ok_iff {α β : Type} {f : α → β} {x : Except ComputationError α} {b : β} :
    hush f x = .ok b ↔ ∃ a, x = .ok a ∧ f a = b := by
  cases x <;> simp [hush, Except.map, Except.mapError]

theorem hush_eq_error_iff {α β : Type} {f : α → β} {x : Except ComputationError α}
    {err : ComputationError} : hush f x = .error err ↔ ∃ err', x = .error err' ∧ err'.hushed = err := by
  cases x <;> simp [hush, Except.map, Except.mapError]

/-- What is made of a run, its error hushed. -/
def hushRun {α β γ : Type} (f : α → β) (run : Except ComputationError α × γ) :
    Except ComputationError β × γ :=
  (hush f run.1, run.2)

/-- An error that has no reason remains. -/
theorem hushRun_error {α β γ : Type} (f : α → β) {err : ComputationError} (h : err.hushed = err) (s : γ) :
    hushRun f (.error err, s) = (.error err, s) :=
  congrArg (fun err => (Except.error err, s)) h

/-! ## What computations say -/

/-- The outcome with one reason in the place of its own. -/
def Outcome.hushed (o : Outcome) : Outcome :=
  { o with value := o.value.mapError fun _ => Engine.nullRefused }

/-- The computation that gives one reason for all its failures. -/
def Computation.hushed (f : Computation) : Computation := fun e i => (f e i).hushed

/-- The virtual field whose computation gives one reason. -/
def VirtualField.hushed (v : VirtualField) : VirtualField := v.recompute v.computation.hushed

/-- The catalog whose computations give one reason. -/
def Catalog.hushed (c : Catalog) : Catalog := c.recast fun _ v => v.computation.hushed

/-- The batch whose target gives one reason. -/
def Batch.hushed (b : Batch) : Batch := { b with target := b.target.hushed }

/-- The field in its order, whose computation gives one reason. -/
def Visit.hushed (t : Visit) : Visit := { t with field := t.field.hushed }

/-- Results with one reason in the place of all. -/
def Results.hushed (found : Results) : Results := found.map fun t => (t.1, hush id t.2)

/-- The outcome of a batch with one reason in the place of all. -/
def BatchOutcome.hushed (o : BatchOutcome) : BatchOutcome := { o with results := Results.hushed o.results }

/-- The values of a batch remain. -/
@[simp] theorem BatchOutcome.value?_hushed (o : BatchOutcome) (id : EntityId) :
    o.hushed.value? id = o.value? id := by
  unfold BatchOutcome.value? BatchOutcome.hushed Results.hushed
  dsimp only
  generalize o.results = found
  induction found with
  | nil => rfl
  | cons t found ih =>
    obtain ⟨key, r⟩ := t
    rw [List.map_cons, List.lookup_cons, List.lookup_cons]
    cases id == key with
    | false => exact ih
    | true => cases r <;> rfl

/-- A result that is set in its place is hushed there. -/
theorem Results.set_hushed (key : EntityId) (r : Except ComputationError Value) (acc : Results) :
    Assoc.set key (hush id r) (Results.hushed acc) = Results.hushed (Assoc.set key r acc) := by
  induction acc with
  | nil => rfl
  | cons t acc ih =>
    obtain ⟨key', r'⟩ := t
    unfold Results.hushed at ih ⊢
    rw [List.map_cons]
    unfold Assoc.set
    split
    · rfl
    · rw [List.map_cons, ← ih]

namespace Engine

variable {σ : Type}

/-- The engine whose computations give one reason. -/
def hushed (en : Engine σ) : Engine σ := { en with catalog := en.catalog.hushed }

variable {en : Engine σ} {b : Batch}

theorem virtual?_hushed {name : String} {found : Option VirtualField}
    (hv : en.catalog.virtual? name = found) :
    en.hushed.catalog.virtual? name = found.map VirtualField.hushed :=
  (Catalog.virtual?_recast name).trans (congrArg (Option.map VirtualField.hushed) hv)

/-! ## What an engine says itself -/

theorem gather_hushed {α : Type} {look : String → Option α} {missing : String → ComputationError}
    (h : ∀ n, (missing n).hushed = missing n) (names : List String) :
    hush id (gather look missing names) = gather look missing names := by
  induction names with
  | nil => rfl
  | cons n names ih =>
    unfold gather
    split
    · exact congrArg Except.error (h n)
    · generalize gather look missing names = rest at ih ⊢
      cases rest with
      | error err => exact congrArg Except.error (Except.error.inj ih)
      | ok found => rfl

/-- Inputs that are missing have no reason. -/
theorem hushed_of_resolveInputs {v : VirtualField} {e : Entity} {computed : List (String × Value)}
    {cancelled : Bool} {err : ComputationError} (h : resolveInputs b v e computed cancelled = .error err) :
    err.hushed = err := by
  unfold resolveInputs resolveColumns resolveRelations at h
  have hcolumns := @gather_hushed _ (fun d => (List.lookup d computed).or (e.attribute? d))
    (.missingDependency v.name e.ref) (fun _ => rfl) v.dependencies
  have hrelations := @gather_hushed _ e.relation? (.missingRelation v.name e.ref) (fun _ => rfl)
    v.relationships
  split at h
  · rename_i hfound
    rw [hfound] at hcolumns
    cases h
    exact Except.error.inj hcolumns
  · split at h
    · rename_i hfound
      rw [hfound] at hrelations
      cases h
      exact Except.error.inj hrelations
    · cases h

/-- A budget has no reason. -/
theorem takeOver_hushed (budget : Budget) (value : Value) (p : Progress σ) :
    hushRun id (takeOver budget value p) = takeOver budget value p := by
  unfold takeOver
  split
  · rename_i htime
    exact hushRun_error id (Budget.checkTime_error htime).1.hushed p
  · split
    · rename_i hcharge
      exact hushRun_error id (Budget.charge_error hcharge).1.hushed _
    · rfl

/-! ## One field -/

/-- **A computation says no more than that it has failed.** -/
theorem compute_hushed (v : VirtualField) (e : Entity) (i : Inputs) (p : Progress σ) :
    compute b.hushed v.hushed e i p = hushRun id (compute b v e i p) := by
  unfold compute
  dsimp only
  rw [show v.hushed.computation e i = (v.computation e i).hushed from rfl]
  unfold Outcome.hushed
  dsimp only
  cases (v.computation e i).value with
  | error reason => rfl
  | ok value =>
    dsimp only [Except.mapError]
    rw [show v.hushed.nullable = v.nullable from rfl]
    split
    · rfl
    · exact (takeOver_hushed _ _ _).symm

theorem findOrCompute_hushed (v : VirtualField) (e : Entity) (i : Inputs) (slot : Slot σ)
    (p : Progress σ) : en.hushed.findOrCompute b.hushed v.hushed e i slot p =
      hushRun id (en.findOrCompute b v e i slot p) := by
  unfold findOrCompute
  split
  · rfl
  · rw [compute_hushed]
    generalize compute b v e i _ = run
    obtain ⟨r, p'⟩ := run
    cases r <;> rfl

/-- **One field of one entity.** -/
theorem computeOne_hushed (v : VirtualField) (e : Entity) (computed : List (String × Value))
    (p : Progress σ) : en.hushed.computeOne b.hushed v.hushed e computed p =
      hushRun id (en.computeOne b v e computed p) := by
  unfold computeOne
  rw [show resolveInputs b.hushed v.hushed e computed p.cancelled =
    resolveInputs b v e computed p.cancelled from rfl]
  cases hinputs : resolveInputs b v e computed p.cancelled with
  | error err => exact (hushRun_error id (hushed_of_resolveInputs hinputs) p).symm
  | ok i =>
    dsimp only
    rw [show en.hushed.slot? v.hushed e i = en.slot? v e i from rfl]
    cases en.slot? v e i with
    | none => exact compute_hushed v e i p
    | some slot => exact findOrCompute_hushed v e i slot p

/-- **What follows the turn of a field does not hang on reasons.** -/
theorem goOn_hushed {α β : Type} (φ : α → β) {ends : Except ComputationError Value → α}
    {ends' : Except ComputationError Value → β} {onwards : List (String × Value) → α}
    {onwards' : List (String × Value) → β} (hends : ∀ r, ends' (hush id r) = φ (ends r))
    (honwards : ∀ computed, onwards' computed = φ (onwards computed)) (target : VirtualField) (e : Entity)
    (t : Visit) (r : Except ComputationError Value) :
    en.hushed.goOn target.hushed e t.hushed ends' onwards' (hush id r) =
      φ (en.goOn target e t ends onwards r) := by
  cases r with
  | ok value => exact honwards _
  | error err =>
    show (if t.field.name = target.name ∨ err.hushed.isBatchLevel then ends' (hush id (.error err))
      else if en.settings.failurePolicy = .default then onwards' ((t.name, t.field.default) :: t.computed)
      else ends' (hush id (.error (.dependencyFailed target.name e.ref t.field.name)))) = _
    unfold goOn
    rw [ComputationError.isBatchLevel_hushed, hends, hends, honwards, apply_ite φ, apply_ite φ]

theorem computeOrder_hushed (e : Entity) (names : List String) :
    ∀ (computed : List (String × Value)) (p : Progress σ),
      en.hushed.computeOrder b.hushed e names computed p =
        hushRun id (en.computeOrder b e names computed p) := by
  induction names with
  | nil =>
    intro computed p
    unfold computeOrder
    rw [show b.hushed.target.name = b.target.name from rfl]
    split <;> rfl
  | cons name rest ih =>
    intro computed p
    cases hv : en.catalog.virtual? name with
    | none =>
      unfold computeOrder
      rw [hv, virtual?_hushed hv]
      exact ih computed p
    | some v =>
      rw [computeOrder_cons hv, computeOrder_cons (virtual?_hushed hv), computeOne_hushed]
      exact goOn_hushed (hushRun id) (fun r => rfl) (fun table => ih table _) b.target e
        ⟨name, v, rest, computed⟩ _

/-- **The target of a batch for one entity.** -/
theorem computeEntity_hushed (e : Entity) (p : Progress σ) :
    en.hushed.computeEntity b.hushed e p = hushRun id (en.computeEntity b e p) := by
  unfold computeEntity
  rw [show b.hushed.budget = b.budget from rfl]
  cases htime : b.budget.checkTime p.spent with
  | error err => exact (hushRun_error id (Budget.checkTime_error htime).1.hushed p).symm
  | ok u => exact computeOrder_hushed e b.order [] p

/-! ## Many entities -/

theorem computeChunk_hushed (es : List Entity) :
    ∀ p : Progress σ, en.hushed.computeChunk b.hushed es p =
      (Results.hushed (en.computeChunk b es p).1, (en.computeChunk b es p).2) := by
  induction es with
  | nil => exact fun p => rfl
  | cons e es ih =>
    intro p
    unfold computeChunk
    rw [computeEntity_hushed]
    dsimp only [hushRun]
    rw [ih]
    rfl

/-- What becomes of a failure does not hang on its reasons. -/
theorem settle_hushed (v : VirtualField) (err : ComputationError) (stats : BatchStats) :
    en.hushed.settle v.hushed err.hushed stats =
      hush (fun settled => (hush id settled.1, settled.2)) (en.settle v err stats) := by
  unfold settle
  rw [show en.hushed.settings = en.settings from rfl]
  dsimp only
  split
  · rfl
  · split
    · rfl
    · split <;> rfl

theorem collect_hushed (v : VirtualField) (found : Results) :
    ∀ (acc : Results) (stats : BatchStats),
      en.hushed.collect v.hushed (Results.hushed found) (Results.hushed acc) stats =
        hush (fun collected => (Results.hushed collected.1, collected.2)) (en.collect v found acc stats) := by
  induction found with
  | nil => exact fun acc stats => rfl
  | cons t found ih =>
    intro acc stats
    obtain ⟨key, r⟩ := t
    have hnext : ∀ (r : Except ComputationError Value) (stats : BatchStats),
        en.hushed.collect v.hushed (Results.hushed found)
            (Assoc.set key (hush id r) (Results.hushed acc)) stats =
          hush (fun collected => (Results.hushed collected.1, collected.2))
            (en.collect v found (Assoc.set key r acc) stats) := by
      intro r stats
      rw [Results.set_hushed, ih]
    cases r with
    | ok value => exact hnext (.ok value) stats
    | error err =>
      show en.hushed.collect v.hushed ((key, .error err.hushed) :: Results.hushed found) _ stats = _
      unfold collect
      rw [ComputationError.isBatchLevel_hushed, settle_hushed]
      split
      · rfl
      · generalize en.settle v err stats = settled
        cases settled with
        | error err => rfl
        | ok settled => exact hnext settled.1 settled.2

theorem computeChunks_hushed (parts : List (List Entity)) :
    ∀ (acc : Results) (p : Progress σ),
      en.hushed.computeChunks b.hushed parts (Results.hushed acc) p =
        hushRun Results.hushed (en.computeChunks b parts acc p) := by
  induction parts with
  | nil => exact fun acc p => rfl
  | cons es parts ih =>
    intro acc p
    rw [computeChunks_cons, computeChunks_cons, computeChunk_hushed]
    have htake : ∀ run : Results × Progress σ,
        en.hushed.takeIn b.hushed parts (Results.hushed acc) (Results.hushed run.1, run.2) =
          hushRun Results.hushed (en.takeIn b parts acc run) := by
      intro run
      unfold takeIn
      dsimp only
      rw [show b.hushed.target = b.target.hushed from rfl, collect_hushed]
      cases en.collect b.target run.1 acc run.2.stats with
      | error err => rfl
      | ok collected => exact ih _ _
    rw [htake]
    unfold gated
    rw [show b.hushed.heeds = b.heeds from rfl, show b.hushed.budget = b.budget from rfl]
    split
    · rfl
    · cases htime : b.budget.checkTime p.spent with
      | error err => exact (hushRun_error Results.hushed (Budget.checkTime_error htime).1.hushed p).symm
      | ok u => rfl

theorem batchOf_hushed (heeds : Bool) (v : VirtualField) (s : EngineState σ) :
    en.hushed.batchOf heeds v.hushed s = (en.batchOf heeds v s).hushed := by
  unfold batchOf Batch.hushed
  rw [show en.hushed.catalog.computationOrder v.hushed.name = en.catalog.computationOrder v.name from
    Catalog.computationOrder_recast v.name]
  rfl

theorem concluded_hushed (s : EngineState σ) (run : Except ComputationError Results × Progress σ) :
    concluded s (hushRun Results.hushed run) = hushRun BatchOutcome.hushed (concluded s run) := by
  obtain ⟨r, p⟩ := run
  cases r <;> rfl

/-- **A batch has the values that it had, and its failures say less.** -/
theorem computeBatch_hushed (heeds : Bool) (field : String) (es : List Entity) (s : EngineState σ) :
    en.hushed.computeBatch heeds field es s =
      hushRun BatchOutcome.hushed (en.computeBatch heeds field es s) := by
  cases hv : en.catalog.virtual? field with
  | none =>
    unfold computeBatch
    rw [hv, virtual?_hushed hv]
    rfl
  | some v =>
    have hchunks := @computeChunks_hushed σ en (en.batchOf heeds v s)
      (chunks (en.settings.batchSize - 1) es) [] (startOf es s)
    rw [computeBatch_concluded hv, computeBatch_concluded (virtual?_hushed hv), ← concluded_hushed,
      batchOf_hushed]
    exact congrArg (concluded s) hchunks

end Engine

/-! ## The same but for reasons -/

/-- Two errors that differ in reasons at most, however deep in a failed batch. -/
inductive ComputationError.SameButReasons : ComputationError → ComputationError → Prop
  | callback (field : String) (entity : EntityRef) (reason reason' : String) :
      SameButReasons (.callbackFailed field entity reason) (.callbackFailed field entity reason')
  | batch (field : String) (failed : Nat) {cause cause' : ComputationError}
      (h : SameButReasons cause cause') :
      SameButReasons (.batchFailed field failed cause) (.batchFailed field failed cause')
  | refl (err : ComputationError) : SameButReasons err err

/-- Two outcomes that differ in the reason of a failure at most. -/
structure Outcome.SameButReasons (o o' : Outcome) : Prop where
  value : o.value.toOption = o'.value.toOption
  cancels : o.cancels = o'.cancels
  duration : o.duration = o'.duration

/-- Two virtual fields whose computations differ in the reasons of failures at most. -/
structure VirtualField.SameButReasons (v v' : VirtualField) : Prop where
  field : v' = v.recompute v'.computation
  outcome : ∀ e i, (v.computation e i).SameButReasons (v'.computation e i)

/-- Two catalogs whose computations differ in the reasons of failures at most. -/
structure Catalog.SameButReasons (c c' : Catalog) : Prop where
  fields : c.fields = c'.fields
  aliases : c.aliases = c'.aliases
  virtualFields : List.Forall₂ (fun p p' => p.1 = p'.1 ∧ p.2.SameButReasons p'.2) c.virtualFields
    c'.virtualFields

theorem ComputationError.SameButReasons.hushed {err err' : ComputationError}
    (h : err.SameButReasons err') : err.hushed = err'.hushed := by
  induction h with
  | callback field entity reason reason' => rfl
  | batch field failed h ih => exact congrArg (ComputationError.batchFailed field failed) ih
  | refl err => rfl

theorem Outcome.SameButReasons.hushed {o o' : Outcome} (h : o.SameButReasons o') : o.hushed = o'.hushed := by
  obtain ⟨value, cancels, duration⟩ := o
  obtain ⟨value', cancels', duration'⟩ := o'
  obtain ⟨hvalue, hcancels, hduration⟩ := h
  dsimp only at hvalue hcancels hduration
  subst hcancels hduration
  rcases Except.cases_of_toOption hvalue with ⟨a, rfl, rfl⟩ | ⟨reason, reason', rfl, rfl⟩ <;> rfl

theorem VirtualField.SameButReasons.hushed {v v' : VirtualField} (h : v.SameButReasons v') :
    v.hushed = v'.hushed := by
  have hcomputation : v.computation.hushed = v'.computation.hushed :=
    funext fun e => funext fun i => (h.outcome e i).hushed
  unfold VirtualField.hushed
  rw [hcomputation, h.field]
  rfl

/-- **Catalogs that differ in reasons at most are one catalog when they are hushed.** -/
theorem Catalog.SameButReasons.hushed {c c' : Catalog} (h : c.SameButReasons c') :
    c.hushed = c'.hushed := by
  obtain ⟨hfields, haliases, hvirtual⟩ := h
  replace hvirtual : c.virtualFields.map (fun p => (p.1, p.2.hushed)) =
      c'.virtualFields.map fun p => (p.1, p.2.hushed) := by
    generalize c.virtualFields = m, c'.virtualFields = m' at hvirtual
    induction hvirtual with
    | nil => rfl
    | cons hfirst _ ih => rw [List.map_cons, List.map_cons, ih, hfirst.1, hfirst.2.hushed]
  show Catalog.mk c.fields (c.virtualFields.map fun p => (p.1, p.2.hushed)) c.aliases =
    Catalog.mk c'.fields (c'.virtualFields.map fun p => (p.1, p.2.hushed)) c'.aliases
  rw [hfields, hvirtual, haliases]

end FieldQuery
