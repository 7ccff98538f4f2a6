import FieldQuery.Proofs.Data.Chunks
import FieldQuery.Proofs.Engine.Schedule

/-!
# Batches in chunks of any size

An engine without a cache, whose computations are pure, a token that is not heeded, and time for all
computations.

* `yields` — what the chunks of a batch come to; `BatchOutcome.unchunked` — an outcome without the
  number of its chunks;
* `Unhurried` — time is left for some entities, and the memory has sufficed so far;
* `Adds` — a run adds to the counts and does not look at them;
* `Parallel`, `ParallelBatch` — a batch in which the entities of a chunk are computed side by side,
  under any schedule, and the chunks one after the other.

A chunk may be cut in two: the results are taken over in the same order, and a ceiling that is reached
in the second half does not come before a failure of the first (`computeChunks_cut`).  For a schedule the
verdict on each chunk is that on the chunk in order, and so is the progress after it, if the batch goes on
(`parallel_iff`).

Principal results: `computeBatch_withBatchSize` — the size of the chunks changes nothing but their number;
`parallelBatch_iff` — a batch side by side ends well if and only if the one in order does, with the same
outcome; `effort_within` — a batch that ends well has kept to its memory.
-/

namespace FieldQuery

/-- Counts without the number of chunks. -/
def BatchStats.unchunked (s : BatchStats) : BatchStats := { s with chunks := 0 }

/-- An outcome without the number of its chunks. -/
def BatchOutcome.unchunked (o : BatchOutcome) : BatchOutcome := { o with stats := o.stats.unchunked }

theorem BatchStats.add_right_comm (s d w : BatchStats) : (s.add d).add w = (s.add w).add d := by
  unfold add
  simp [Nat.add_right_comm]

theorem BatchStats.add_assoc (s d w : BatchStats) : (s.add d).add w = s.add (d.add w) := by
  unfold add
  simp [Nat.add_assoc]

namespace Progress

variable {σ : Type}

@[simp] theorem recount_stats (p : Progress σ) (s : BatchStats) : (p.recount s).stats = s := rfl

@[simp] theorem recount_spent (p : Progress σ) (s : BatchStats) :
    (p.recount s).spent = p.spent := rfl

@[simp] theorem recount_used (p : Progress σ) (s : BatchStats) : (p.recount s).used = p.used := rfl

@[simp] theorem recount_cancelled (p : Progress σ) (s : BatchStats) :
    (p.recount s).cancelled = p.cancelled := rfl

@[simp] theorem nextChunk_spent (p : Progress σ) : p.nextChunk.spent = p.spent := rfl

@[simp] theorem nextChunk_used (p : Progress σ) : p.nextChunk.used = p.used := rfl

@[simp] theorem nextChunk_cancelled (p : Progress σ) : p.nextChunk.cancelled = p.cancelled := rfl

theorem nextChunk_recount (p : Progress σ) (d : BatchStats) :
    (p.recount (p.stats.add d)).nextChunk = p.nextChunk.recount (p.nextChunk.stats.add d) := by
  show p.recount ((p.stats.add d).add { chunks := 1 }) = p.recount ((p.stats.add { chunks := 1 }).add d)
  rw [BatchStats.add_right_comm]

end Progress

namespace Engine

variable {σ : Type} {en : Engine σ} {b : Batch}

/-- What the chunks of a batch come to. -/
def yields (run : Except ComputationError Results × Progress σ) :
    Except ComputationError BatchOutcome :=
  run.1.map fun results => ⟨results, run.2.stats⟩

/-- A batch for an unknown field fails. -/
theorem computeBatch_unknown {field : String} (hv : en.catalog.virtual? field = none) (heeds : Bool)
    (es : List Entity) (s : EngineState σ) :
    (en.computeBatch heeds field es s).1 = .error (.unknownField field) := by
  unfold computeBatch
  rw [hv]

/-- A batch is what its chunks come to. -/
theorem computeBatch_yields {field : String} {v : VirtualField}
    (hv : en.catalog.virtual? field = some v) (heeds : Bool) (es : List Entity) (s : EngineState σ) :
    (en.computeBatch heeds field es s).1 = yields (en.computeChunks (en.batchOf heeds v s)
      (chunks (en.settings.batchSize - 1) es) [] (startOf es s)) := by
  obtain ⟨run, rfl, hrun, -⟩ := computeBatch_of_virtual? hv heeds es s
  exact hrun

/-! ## Counts are only added to -/

/-- A run adds to the counts and does not look at them.  It adds no failures. -/
def Adds {α : Type} (run : Progress σ → α × Progress σ) (p : Progress σ) : Prop :=
  ∃ w : BatchStats, w.failed = 0 ∧
    ∀ s, run (p.recount s) = ((run p).1, (run p).2.recount (s.add w))

theorem Adds.still {α : Type} (a : α) (p : Progress σ) : Adds (fun p => (a, p)) p :=
  ⟨{}, rfl, fun _ => rfl⟩

/-- A run that is another one at a progress with any counts. -/
theorem Adds.congr {α : Type} {run run' : Progress σ → α × Progress σ} {p : Progress σ} (h : Adds run p)
    (hsame : run' p = run p) (hcounts : ∀ s, run' (p.recount s) = run (p.recount s)) : Adds run' p := by
  obtain ⟨w, hw, hadds⟩ := h
  refine ⟨w, hw, fun s => ?_⟩
  rw [hcounts, hadds, hsame]

/-- A run that goes on as the result of another one says. -/
theorem Adds.bind {α β : Type} {first : Progress σ → α × Progress σ}
    {f : α → Progress σ → β × Progress σ} {p : Progress σ} (h₁ : Adds first p)
    (h₂ : Adds (f (first p).1) (first p).2) :
    Adds (fun p => f (first p).1 (first p).2) p := by
  obtain ⟨w₁, hw₁, hfirst⟩ := h₁
  obtain ⟨w₂, hw₂, hsecond⟩ := h₂
  refine ⟨w₁.add w₂, ?_, fun s => ?_⟩
  · unfold BatchStats.add
    simp [hw₁, hw₂]
  · dsimp only
    rw [hfirst s]
    dsimp only
    rw [hsecond, BatchStats.add_assoc]

theorem takeOver_recount (b : Budget) (value : Value) (p : Progress σ) (s : BatchStats) :
    takeOver b value (p.recount s) =
      ((takeOver b value p).1, (takeOver b value p).2.recount s) := by
  unfold takeOver
  rw [Progress.recount_spent, Progress.recount_used]
  cases b.checkTime p.spent with
  | error err => rfl
  | ok u =>
    dsimp only
    generalize b.charge value.size p.used = charged
    obtain ⟨r, used⟩ := charged
    cases r <;> rfl

theorem compute_adds (b : Batch) (v : VirtualField) (e : Entity) (i : Inputs) (p : Progress σ) :
    Adds (compute b v e i) p := by
  have hspend : ∃ w : BatchStats, w.failed = 0 ∧ ∀ s, spend (v.computation e i) (p.recount s) =
      (spend (v.computation e i) p).recount (s.add w) := by
    unfold spend
    split
    · exact ⟨{}, rfl, fun _ => rfl⟩
    · exact ⟨{ computed := 1 }, rfl, fun _ => rfl⟩
  obtain ⟨w, hw, hspend⟩ := hspend
  refine ⟨w, hw, fun s => ?_⟩
  rw [compute_eq, compute_eq, hspend]
  split
  · rfl
  · exact takeOver_recount b.budget _ _ _

theorem findCached_adds (slot : Slot σ) (p : Progress σ) : Adds (findCached slot) p := by
  unfold Adds findCached
  dsimp only [Progress.recount]
  generalize slot.cache.fetch Value.decode? (p.clock + 1) slot.key p.cache = fetched
  obtain ⟨found, s⟩ := fetched
  cases found with
  | error err => exact ⟨{ cacheErrors := 1 }, rfl, fun _ => rfl⟩
  | ok found =>
    cases found with
    | none => exact ⟨{}, rfl, fun _ => rfl⟩
    | some value => exact ⟨{ cacheHits := 1 }, rfl, fun _ => rfl⟩

theorem remember_adds (lifetime : Nat) (value : Value) (slot : Slot σ) (p : Progress σ) :
    Adds (fun p => ((.ok value : Except ComputationError Value), remember lifetime value slot p)) p := by
  unfold Adds remember
  dsimp only [Progress.recount]
  split
  · exact ⟨{}, rfl, fun _ => rfl⟩
  · exact ⟨{ cacheErrors := 1 }, rfl, fun _ => rfl⟩

theorem findOrCompute_adds (v : VirtualField) (e : Entity) (i : Inputs) (slot : Slot σ)
    (p : Progress σ) : Adds (en.findOrCompute b v e i slot) p := by
  let keep : Except ComputationError Value → Progress σ → Except ComputationError Value × Progress σ
    | .error err, p => (.error err, p)
    | .ok value, p => (.ok value, remember (en.lifetime v) value slot p)
  let follow : Option Value → Progress σ → Except ComputationError Value × Progress σ
    | some value, p => (.ok value, p)
    | none, p => keep (compute b v e i p).1 (compute b v e i p).2
  have hkeep : ∀ r p, Adds (keep r) p := by
    intro r p
    cases r with
    | error err => exact .still _ p
    | ok value => exact remember_adds _ value slot p
  have hfollow : ∀ found p, Adds (follow found) p := by
    intro found p
    cases found with
    | some value => exact .still _ p
    | none => exact (compute_adds b v e i p).bind (hkeep _ _)
  have hrun : ∀ q, en.findOrCompute b v e i slot q =
      follow (findCached slot q).1 (findCached slot q).2 := by
    intro q
    unfold findOrCompute
    generalize findCached slot q = looked
    obtain ⟨found, q⟩ := looked
    cases found with
    | some value => rfl
    | none =>
      show _ = keep (compute b v e i q).1 (compute b v e i q).2
      dsimp only
      generalize compute b v e i q = run
      obtain ⟨r, q⟩ := run
      cases r <;> rfl
  exact ((findCached_adds slot p).bind (hfollow _ _)).congr (hrun p) fun s => hrun (p.recount s)

theorem computeOne_adds (v : VirtualField) (e : Entity) (computed : List (String × Value))
    (p : Progress σ) : Adds (en.computeOne b v e computed) p := by
  cases hinputs : resolveInputs b v e computed p.cancelled with
  | error err =>
    have hrun : ∀ q : Progress σ, q.cancelled = p.cancelled →
        en.computeOne b v e computed q = (.error err, q) :=
      fun q hq => computeOne_of_lacking (by rw [hq, hinputs])
    exact (Adds.still (.error err) p).congr (hrun p rfl) fun s => hrun (p.recount s) rfl
  | ok inputs =>
    cases hslot : en.slot? v e inputs with
    | none =>
      have hrun : ∀ q : Progress σ, q.cancelled = p.cancelled →
          en.computeOne b v e computed q = compute b v e inputs q := by
        intro q hq
        unfold computeOne
        rw [hq, hinputs]
        dsimp only
        rw [hslot]
      exact (compute_adds b v e inputs p).congr (hrun p rfl) fun s => hrun (p.recount s) rfl
    | some slot =>
      have hrun : ∀ q : Progress σ, q.cancelled = p.cancelled →
          en.computeOne b v e computed q = en.findOrCompute b v e inputs slot q := by
        intro q hq
        unfold computeOne
        rw [hq, hinputs]
        dsimp only
        rw [hslot]
      exact (findOrCompute_adds v e inputs slot p).congr (hrun p rfl) fun s => hrun (p.recount s) rfl

/-- What follows the turn of a field. -/
theorem goOn_adds (target : VirtualField) (e : Entity) (t : Visit)
    {onwards : List (String × Value) → Progress σ → Except ComputationError Value × Progress σ}
    (honwards : ∀ table p, Adds (onwards table) p) (r : Except ComputationError Value)
    (p : Progress σ) : Adds (en.goOn target e t (fun r p => (r, p)) onwards r) p := by
  rcases goOn_cases target e t r with ⟨a, -, hgo⟩ | ⟨err, hgo⟩
  · rw [hgo]
    exact honwards _ p
  · rw [hgo]
    exact .still _ p

theorem computeOrder_adds (e : Entity) (names : List String) :
    ∀ (computed : List (String × Value)) (p : Progress σ),
      Adds (en.computeOrder b e names computed) p := by
  induction names with
  | nil =>
    intro computed p
    have hrun : en.computeOrder b e [] computed = fun p => (targetValue b.target computed, p) := by
      funext p
      rw [computeOrder]
      unfold targetValue
      cases List.lookup b.target.name computed <;> rfl
    rw [hrun]
    exact .still _ p
  | cons name rest ih =>
    intro computed p
    cases hv : en.catalog.virtual? name with
    | none =>
      have hrun : en.computeOrder b e (name :: rest) computed = en.computeOrder b e rest computed := by
        funext p
        rw [computeOrder, hv]
      rw [hrun]
      exact ih computed p
    | some v =>
      have hrun : en.computeOrder b e (name :: rest) computed = fun p =>
          en.goOn b.target e ⟨name, v, rest, computed⟩ (fun r p => (r, p))
            (fun table => en.computeOrder b e rest table) (en.computeOne b v e computed p).1
            (en.computeOne b v e computed p).2 := by
        funext p
        rw [computeOrder_cons hv]
        rcases goOn_cases b.target e ⟨name, v, rest, computed⟩ (en.computeOne b v e computed p).1 with
          ⟨a, -, hgo⟩ | ⟨err, hgo⟩
        · rw [hgo, hgo]
        · rw [hgo, hgo]
      rw [hrun]
      exact (computeOne_adds v e computed p).bind (goOn_adds b.target e _ ih _ _)

theorem computeEntity_adds (e : Entity) (p : Progress σ) :
    Adds (en.computeEntity b e) p := by
  cases htime : b.budget.checkTime p.spent with
  | error err =>
    have hrun : ∀ q : Progress σ, q.spent = p.spent → en.computeEntity b e q = (.error err, q) := by
      intro q hq
      unfold computeEntity
      rw [hq, htime]
    exact (Adds.still (.error err) p).congr (hrun p rfl) fun s => hrun (p.recount s) rfl
  | ok u =>
    have hrun : ∀ q : Progress σ, q.spent = p.spent →
        en.computeEntity b e q = en.computeOrder b e b.order [] q := by
      intro q hq
      unfold computeEntity
      rw [hq, htime]
    exact (computeOrder_adds e b.order [] p).congr (hrun p rfl) fun s => hrun (p.recount s) rfl

theorem computeChunk_adds (es : List Entity) :
    ∀ p : Progress σ, Adds (en.computeChunk b es) p := by
  induction es with
  | nil => exact .still _
  | cons e es ih =>
    intro p
    have hrest : ∀ r p, Adds (fun q : Progress σ => ((e.id, r) :: (en.computeChunk b es q).1,
        (en.computeChunk b es q).2)) p :=
      fun r p => (ih p).bind (f := fun found q => ((e.id, r) :: found, q)) (.still _ _)
    exact (computeEntity_adds e p).bind
      (f := fun r q => ((e.id, r) :: (en.computeChunk b es q).1, (en.computeChunk b es q).2))
      (hrest _ _)

/-- What a chunk has added is there at the end. -/
theorem computeChunk_recount (es : List Entity) (p : Progress σ) :
    ∃ w : BatchStats, w.failed = 0 ∧ (en.computeChunk b es p).2.stats = p.stats.add w ∧
      ∀ s, en.computeChunk b es (p.recount s) =
        ((en.computeChunk b es p).1, (en.computeChunk b es p).2.recount (s.add w)) := by
  obtain ⟨w, hw, hrun⟩ := computeChunk_adds (b := b) es p
  exact ⟨w, hw, congrArg (fun r => r.2.stats) (hrun p.stats), hrun⟩

theorem settle_add (v : VirtualField) (err : ComputationError) (stats : BatchStats) {d : BatchStats}
    (hd : d.failed = 0) :
    en.settle v err (stats.add d) = (en.settle v err stats).map (Prod.map id (·.add d)) := by
  unfold settle BatchStats.add
  rw [hd]
  cases en.settings.failurePolicy <;> cases en.settings.abortBatchOnFailure <;>
    simp [Except.map, Nat.add_right_comm]

/-- Results are taken over without regard to what has been counted besides failures. -/
theorem collect_add (v : VirtualField) {d : BatchStats} (hd : d.failed = 0) (found : Results) :
    ∀ (acc : Results) (stats : BatchStats), en.collect v found acc (stats.add d) =
      (en.collect v found acc stats).map (Prod.map id (·.add d)) := by
  induction found with
  | nil => exact fun _ _ => rfl
  | cons r found ih =>
    intro acc stats
    obtain ⟨id, x⟩ := r
    cases x with
    | ok value => exact ih _ stats
    | error err =>
      rw [collect, collect, settle_add v err stats hd]
      split
      · rfl
      · cases en.settle v err stats with
        | error err' => rfl
        | ok settled => exact ih _ settled.2

/-- What follows a chunk: its results are taken over, and the other chunks computed. -/
def takeIn (en : Engine σ) (b : Batch) (parts : List (List Entity)) (acc : Results)
    (run : Results × Progress σ) : Except ComputationError Results × Progress σ :=
  match en.collect b.target run.1 acc run.2.stats with
  | .error err => (.error err, run.2)
  | .ok (results, stats) => en.computeChunks b parts results (run.2.recount stats)

/-- What follows if neither the token nor the time ends the batch. -/
def gated (b : Batch) (p : Progress σ) (run : Except ComputationError Results × Progress σ) :
    Except ComputationError Results × Progress σ :=
  if b.heeds && p.cancelled then (.error (.cancelled b.target.name), p)
  else match b.budget.checkTime p.spent with
    | .error err => (.error err, p)
    | .ok _ => run

theorem computeChunks_cons (es : List Entity) (parts : List (List Entity)) (acc : Results)
    (p : Progress σ) :
    en.computeChunks b (es :: parts) acc p =
      gated b p (en.takeIn b parts acc (en.computeChunk b es p.nextChunk)) := rfl

/-- An outcome with more counts. -/
def more (d : BatchStats) (o : BatchOutcome) : BatchOutcome := { o with stats := o.stats.add d }

theorem unchunked_more (n : Nat) (outcome : Except ComputationError BatchOutcome) :
    (outcome.map (more { chunks := n })).map BatchOutcome.unchunked =
      outcome.map BatchOutcome.unchunked := by
  cases outcome <;> rfl

/-- A run that has counted more. -/
def counting {α : Type} (d : BatchStats) (run : α × Progress σ) : α × Progress σ :=
  (run.1, run.2.recount (run.2.stats.add d))

theorem yields_counting (d : BatchStats) (run : Except ComputationError Results × Progress σ) :
    yields (counting d run) = (yields run).map (more d) := by
  obtain ⟨r, p⟩ := run
  cases r <;> rfl

/-- What follows a chunk adds to the counts if the other chunks do. -/
theorem takeIn_add {d : BatchStats} (hd : d.failed = 0) {parts : List (List Entity)}
    (hparts : ∀ acc p, en.computeChunks b parts acc (p.recount (p.stats.add d)) =
      counting d (en.computeChunks b parts acc p))
    (acc found : Results) (p : Progress σ) :
    en.takeIn b parts acc (found, p.recount (p.stats.add d)) =
      counting d (en.takeIn b parts acc (found, p)) := by
  unfold takeIn
  dsimp only [Progress.recount_stats]
  rw [collect_add b.target hd]
  cases en.collect b.target found acc p.stats with
  | error err => rfl
  | ok collected => exact hparts collected.1 (p.recount collected.2)

/-- The chunks that are left add to the counts. -/
theorem computeChunks_add {d : BatchStats} (hd : d.failed = 0) (parts : List (List Entity)) :
    ∀ (acc : Results) (p : Progress σ),
      en.computeChunks b parts acc (p.recount (p.stats.add d)) =
        counting d (en.computeChunks b parts acc p) := by
  induction parts with
  | nil => exact fun _ _ => rfl
  | cons es parts ih =>
    intro acc p
    rw [computeChunks_cons, computeChunks_cons]
    unfold gated
    rw [Progress.recount_cancelled, Progress.recount_spent]
    split
    · rfl
    split
    · rfl
    obtain ⟨w, -, hstats, hrun⟩ := @computeChunk_recount σ en b es p.nextChunk
    rw [Progress.nextChunk_recount, hrun, BatchStats.add_right_comm, ← hstats]
    exact takeIn_add hd ih acc _ _

/-! ## A chunk is cut in two -/

/-- In a batch, the time suffices for some entities, the memory has sufficed so far, and no token ends
the batch. -/
structure Unhurried (en : Engine σ) (b : Batch) (es : List Entity) (p : Progress σ) : Prop where
  order : b.order = en.catalog.computationOrder b.target.name
  time : p.spent + (en.effortOf b.target es).time ≤ b.budget.timeLimitMs
  memory : p.used ≤ b.budget.memoryLimit
  heard : (b.heeds && p.cancelled) = false

theorem effortOf_append (target : VirtualField) (as bs : List Entity) :
    en.effortOf target (as ++ bs) = en.effortOf target as + en.effortOf target bs := by
  unfold effortOf
  rw [List.map_append, List.sum_append]

/-- With time left, a batch goes on. -/
theorem Unhurried.computeChunks_cons {es rest : List Entity} {p : Progress σ}
    (h : Unhurried en b (es ++ rest) p) (parts : List (List Entity)) (acc : Results) :
    en.computeChunks b (es :: parts) acc p =
      en.takeIn b parts acc (en.computeChunk b es p.nextChunk) := by
  have htime := h.time
  rw [Engine.computeChunks_cons]
  unfold gated
  rw [h.heard, Budget.checkTime_eq_ok_iff.2 (by omega)]
  rfl

/-- A chunk whose memory has sufficed leaves time for the others. -/
theorem Unhurried.after {es rest : List Entity} {p p' : Progress σ} {found : Results}
    (h : Unhurried en b (es ++ rest) p) (hchunk : Fulfilled en b es p.nextChunk found p')
    (stats : BatchStats) : Unhurried en b rest (p'.recount stats) := by
  have htime := h.time
  rw [effortOf_append, Effort.add_time] at htime
  obtain rfl := hchunk.progress
  exact ⟨h.order, by simpa [Nat.add_assoc] using htime, hchunk.memory, h.heard⟩

/-- The verdict on a chunk. -/
theorem Unhurried.verdict (hpure : en.catalog.IsPure) {es rest : List Entity} {p p' : Progress σ}
    {found : Results} (h : Unhurried en b (es ++ rest) p)
    (hchunk : Interleaves en b es p.nextChunk found p') :
    Fulfilled en b es p.nextChunk found p' ∨ Exceeded en b es p.nextChunk found := by
  have htime := h.time
  rw [effortOf_append, Effort.add_time] at htime
  exact hchunk.verdict hpure h.order (by simp only [Progress.nextChunk_spent]; omega) h.memory

/-- An entity that has reached the ceiling ends the batch. -/
theorem Exceeded.collect {es : List Entity} {p : Progress σ} {found : Results}
    (h : Exceeded en b es p found) (acc : Results) (stats : BatchStats) :
    ∃ err, en.collect b.target found acc stats = .error err := by
  cases hcollect : en.collect b.target found acc stats with
  | error err => exact ⟨err, rfl⟩
  | ok collected =>
    obtain ⟨r, hr, err, herr, hceiling⟩ := h.found
    have hlevel := (collect_ok_error hcollect r hr err herr).1
    rw [hceiling.isBatchLevel] at hlevel
    cases hlevel

/-- A chunk whose results are taken over has kept to the memory. -/
theorem Unhurried.fulfilled (hpure : en.catalog.IsPure) {es rest : List Entity} {p p' : Progress σ}
    {found : Results} (h : Unhurried en b (es ++ rest) p)
    (hchunk : Interleaves en b es p.nextChunk found p') {acc : Results} {stats : BatchStats}
    {collected : Results × BatchStats} (hcollect : en.collect b.target found acc stats = .ok collected) :
    Fulfilled en b es p.nextChunk found p' := by
  rcases h.verdict hpure hchunk with hfulfilled | hexceeded
  · exact hfulfilled
  · obtain ⟨err, herr⟩ := hexceeded.collect acc stats
    rw [herr] at hcollect
    cases hcollect

theorem computeChunk_append (as bs : List Entity) :
    ∀ p : Progress σ, en.computeChunk b (as ++ bs) p =
      ((en.computeChunk b as p).1 ++ (en.computeChunk b bs (en.computeChunk b as p).2).1,
        (en.computeChunk b bs (en.computeChunk b as p).2).2) := by
  induction as with
  | nil => exact fun _ => rfl
  | cons a as ih =>
    intro p
    rw [List.cons_append, computeChunk, computeChunk]
    dsimp only
    rw [ih]
    rfl

section Cutting

variable (hpure : en.catalog.IsPure) (hcache : en.cache = none)

include hpure hcache

/-- **A chunk that is cut in two counts as one more, and changes nothing else.** -/
theorem computeChunks_cut {as bs rest : List Entity} {p : Progress σ}
    (h : Unhurried en b (as ++ bs ++ rest) p) (parts : List (List Entity)) (acc : Results) :
    yields (en.computeChunks b (as :: bs :: parts) acc p) =
      (yields (en.computeChunks b ((as ++ bs) :: parts) acc p)).map (more { chunks := 1 }) := by
  have hfirst : Unhurried en b (as ++ (bs ++ rest)) p := by rwa [← List.append_assoc]
  rw [h.computeChunks_cons, hfirst.computeChunks_cons, computeChunk_append]
  have hchunk := interleaves_computeChunk (b := b) hcache as p.nextChunk
  generalize en.computeChunk b as p.nextChunk = run at hchunk ⊢
  obtain ⟨found, p₁⟩ := run
  obtain ⟨w, hw, hstats, hrun⟩ := computeChunk_recount (b := b) bs p₁
  have hboth : yields (en.takeIn b parts acc (found ++ (en.computeChunk b bs p₁).1,
        (en.computeChunk b bs p₁).2)) =
      match en.collect b.target found acc p₁.stats with
      | .error err => .error err
      | .ok (acc₁, stats₁) => yields (en.takeIn b parts acc₁ ((en.computeChunk b bs p₁).1,
          (en.computeChunk b bs p₁).2.recount (stats₁.add w))) := by
    unfold takeIn
    dsimp only
    rw [collect_append, hstats, collect_add b.target hw]
    cases en.collect b.target found acc p₁.stats with
    | error err => rfl
    | ok collected =>
      dsimp only [Except.map, Prod.map, id, Progress.recount_stats]
      cases en.collect b.target (en.computeChunk b bs p₁).1 collected.1 (collected.2.add w) <;> rfl
  rw [hboth]
  dsimp only at hchunk
  rw [takeIn]
  dsimp only
  cases hcollect : en.collect b.target found acc p₁.stats with
  | error err => rfl
  | ok collected =>
    have hsecond := hfirst.after (hfirst.fulfilled hpure hchunk hcollect) collected.2
    dsimp only
    rw [hsecond.computeChunks_cons]
    have hnext : (p₁.recount collected.2).nextChunk =
        p₁.recount (collected.2.add { chunks := 1 }) := rfl
    rw [hnext, hrun, BatchStats.add_right_comm]
    rw [← yields_counting]
    exact congrArg yields (takeIn_add rfl (computeChunks_add rfl parts) collected.1 _
      ((en.computeChunk b bs p₁).2.recount (collected.2.add w)))

/-- The chunks after one that the two batches share. -/
theorem Unhurried.congr {es rest : List Entity} {p : Progress σ} (h : Unhurried en b (es ++ rest) p)
    {parts parts' : List (List Entity)}
    (hparts : ∀ acc p, Unhurried en b rest p →
      (yields (en.computeChunks b parts acc p)).map BatchOutcome.unchunked =
        (yields (en.computeChunks b parts' acc p)).map BatchOutcome.unchunked)
    (acc : Results) :
    (yields (en.computeChunks b (es :: parts) acc p)).map BatchOutcome.unchunked =
      (yields (en.computeChunks b (es :: parts') acc p)).map BatchOutcome.unchunked := by
  rw [h.computeChunks_cons, h.computeChunks_cons]
  have hchunk := interleaves_computeChunk (b := b) hcache es p.nextChunk
  generalize en.computeChunk b es p.nextChunk = run at hchunk ⊢
  unfold takeIn
  cases hcollect : en.collect b.target run.1 acc run.2.stats with
  | error err => rfl
  | ok collected =>
    exact hparts collected.1 _ (h.after (h.fulfilled hpure hchunk hcollect) collected.2)

/-- A chunk is cut behind its first entity, until one entity is left. -/
theorem computeChunks_peel {rest : List Entity} {parts parts' : List (List Entity)}
    (hparts : ∀ acc p, Unhurried en b rest p →
      (yields (en.computeChunks b parts acc p)).map BatchOutcome.unchunked =
        (yields (en.computeChunks b parts' acc p)).map BatchOutcome.unchunked)
    (es : List Entity) :
    ∀ (e : Entity) (acc : Results) (p : Progress σ), Unhurried en b (e :: es ++ rest) p →
      (yields (en.computeChunks b ((e :: es) :: parts) acc p)).map BatchOutcome.unchunked =
        (yields (en.computeChunks b ((e :: es).map ([·]) ++ parts') acc p)).map
          BatchOutcome.unchunked := by
  induction es with
  | nil =>
    intro e acc p h
    exact Unhurried.congr hpure hcache (show Unhurried en b ([e] ++ rest) p from h) hparts acc
  | cons e' es ih =>
    intro e acc p h
    have hcut := computeChunks_cut hpure hcache (show Unhurried en b ([e] ++ (e' :: es) ++ rest) p from h)
      parts acc
    have hunchunked := congrArg (Except.map BatchOutcome.unchunked) hcut
    rw [unchunked_more] at hunchunked
    exact hunchunked.symm.trans (Unhurried.congr hpure hcache
      (show Unhurried en b ([e] ++ (e' :: es ++ rest)) p from h) (ih e') acc)

/-- Chunks of any size are as good as chunks of one entity each. -/
theorem computeChunks_singly (parts : List (List Entity)) (hparts : ∀ part ∈ parts, part ≠ []) :
    ∀ (acc : Results) (p : Progress σ), Unhurried en b parts.flatten p →
      (yields (en.computeChunks b parts acc p)).map BatchOutcome.unchunked =
        (yields (en.computeChunks b (parts.flatten.map ([·])) acc p)).map BatchOutcome.unchunked := by
  induction parts with
  | nil => exact fun _ _ _ => rfl
  | cons es parts ih =>
    obtain ⟨hes, hrest⟩ := List.forall_mem_cons.1 hparts
    obtain ⟨e, es, rfl⟩ := List.exists_cons_of_ne_nil hes
    intro acc p h
    rw [List.flatten_cons, List.map_append]
    exact computeChunks_peel hpure hcache (ih hrest) es e acc p h

end Cutting

/-! ## Entities side by side -/

/-- The chunks of a batch one after the other, and the entities of a chunk under any schedule. -/
inductive Parallel (en : Engine σ) (b : Batch) :
    List (List Entity) → Results → Progress σ → Except ComputationError Results × Progress σ → Prop
  | done (results : Results) (p : Progress σ) : Parallel en b [] results p (.ok results, p)
  | cancelled {es : List Entity} {parts : List (List Entity)} {acc : Results} {p : Progress σ}
      (hheard : (b.heeds && p.cancelled) = true) :
      Parallel en b (es :: parts) acc p (.error (.cancelled b.target.name), p)
  | late {es : List Entity} {parts : List (List Entity)} {acc : Results} {p : Progress σ}
      {err : ComputationError} (hheard : (b.heeds && p.cancelled) = false)
      (htime : b.budget.checkTime p.spent = .error err) :
      Parallel en b (es :: parts) acc p (.error err, p)
  | failed {es : List Entity} {parts : List (List Entity)} {acc found : Results}
      {p p' : Progress σ} {err : ComputationError} (hheard : (b.heeds && p.cancelled) = false)
      (htime : b.budget.checkTime p.spent = .ok ())
      (hchunk : Interleaves en b es p.nextChunk found p')
      (hcollect : en.collect b.target found acc p'.stats = .error err) :
      Parallel en b (es :: parts) acc p (.error err, p')
  | next {es : List Entity} {parts : List (List Entity)} {acc found results : Results}
      {p p' : Progress σ} {stats : BatchStats} {run : Except ComputationError Results × Progress σ}
      (hheard : (b.heeds && p.cancelled) = false) (htime : b.budget.checkTime p.spent = .ok ())
      (hchunk : Interleaves en b es p.nextChunk found p')
      (hcollect : en.collect b.target found acc p'.stats = .ok (results, stats))
      (hrest : Parallel en b parts results (p'.recount stats) run) :
      Parallel en b (es :: parts) acc p run

/-- A batch whose chunks are computed side by side comes to an outcome. -/
def ParallelBatch (en : Engine σ) (heeds : Bool) (field : String) (es : List Entity)
    (s : EngineState σ) (outcome : Except ComputationError BatchOutcome) : Prop :=
  match en.catalog.virtual? field with
  | none => outcome = .error (.unknownField field)
  | some v => ∃ run, Parallel en (en.batchOf heeds v s) (chunks (en.settings.batchSize - 1) es) []
      (startOf es s) run ∧ outcome = yields run

section SideBySide

variable (hcache : en.cache = none)

include hcache

/-- One entity after the other is one way to compute chunks side by side. -/
theorem parallel_computeChunks (parts : List (List Entity)) :
    ∀ (acc : Results) (p : Progress σ),
      Parallel en b parts acc p (en.computeChunks b parts acc p) := by
  induction parts with
  | nil => exact fun acc p => .done acc p
  | cons es parts ih =>
    intro acc p
    rw [computeChunks_cons]
    unfold gated
    split
    · rename_i hheard
      exact .cancelled hheard
    rename_i hheard
    have hheard : (b.heeds && p.cancelled) = false := by simpa using hheard
    cases htime : b.budget.checkTime p.spent with
    | error err => exact .late hheard htime
    | ok u =>
      have hchunk := interleaves_computeChunk (b := b) hcache es p.nextChunk
      unfold takeIn
      cases hcollect : en.collect b.target (en.computeChunk b es p.nextChunk).1 acc
          (en.computeChunk b es p.nextChunk).2.stats with
      | error err => exact .failed hheard htime hchunk hcollect
      | ok collected => exact .next hheard htime hchunk hcollect (ih _ _)

theorem parallelBatch_computeBatch (heeds : Bool) (field : String) (es : List Entity)
    (s : EngineState σ) :
    en.ParallelBatch heeds field es s (en.computeBatch heeds field es s).1 := by
  unfold ParallelBatch
  cases hv : en.catalog.virtual? field with
  | none => exact computeBatch_unknown hv heeds es s
  | some v => exact ⟨_, parallel_computeChunks hcache _ [] _, computeBatch_yields hv heeds es s⟩

variable (hpure : en.catalog.IsPure)

include hpure

/-- **Chunks that are computed side by side end well if and only if they do in order, and then in the
same way.** -/
theorem parallel_iff {parts : List (List Entity)} {acc : Results} {p : Progress σ}
    {run : Except ComputationError Results × Progress σ} (h : Parallel en b parts acc p run)
    (hunhurried : Unhurried en b parts.flatten p) (results : Results) (q : Progress σ) :
    run = (.ok results, q) ↔ en.computeChunks b parts acc p = (.ok results, q) := by
  induction h with
  | done => exact Iff.rfl
  | cancelled hheard =>
    rw [hunhurried.heard] at hheard
    cases hheard
  | @late es parts acc p err _ htime =>
    have hlate := (Budget.checkTime_error htime).2
    have hearly := hunhurried.time
    omega
  | @failed es parts acc found p p' err _ _ hchunk hcollect =>
    have hinOrder := interleaves_computeChunk (b := b) hcache es p.nextChunk
    rw [hunhurried.computeChunks_cons]
    unfold takeIn
    constructor
    · intro herr
      cases herr
    · intro hok
      -- in order, the chunk has reached the ceiling as well, or come to the same
      rcases hunhurried.verdict hpure hchunk with hfulfilled | hexceeded
      · rcases hunhurried.verdict hpure hinOrder with hfulfilled' | hexceeded'
        · rw [hfulfilled'.found, ← hfulfilled.found, hfulfilled'.progress, ← hfulfilled.progress,
            hcollect] at hok
          cases hok
        · exact absurd hexceeded'.memory (Nat.not_lt.2 hfulfilled.memory)
      · rcases hunhurried.verdict hpure hinOrder with hfulfilled' | hexceeded'
        · exact absurd hexceeded.memory (Nat.not_lt.2 hfulfilled'.memory)
        · obtain ⟨err', herr'⟩ := hexceeded'.collect acc (en.computeChunk b es p.nextChunk).2.stats
          rw [herr'] at hok
          cases hok
  | @next es parts acc found results' p p' stats run _ _ hchunk hcollect _ ih =>
    have hfulfilled := hunhurried.fulfilled hpure hchunk hcollect
    rw [ih (hunhurried.after hfulfilled stats), hunhurried.computeChunks_cons]
    rcases hunhurried.verdict hpure (interleaves_computeChunk (b := b) hcache es p.nextChunk) with
      hfulfilled' | hexceeded'
    · unfold takeIn
      rw [hfulfilled'.found, ← hfulfilled.found, hfulfilled'.progress, ← hfulfilled.progress,
        hcollect]
    · exact absurd hexceeded'.memory (Nat.not_lt.2 hfulfilled.memory)

/-- **Chunks that end well have kept to the memory.** -/
theorem computeChunks_within (parts : List (List Entity)) :
    ∀ (acc : Results) (p : Progress σ), Unhurried en b parts.flatten p →
      ∀ results q, en.computeChunks b parts acc p = (.ok results, q) →
        p.used + (en.effortOf b.target parts.flatten).memory ≤ b.budget.memoryLimit := by
  induction parts with
  | nil => exact fun acc p h _ _ _ => h.memory
  | cons es parts ih =>
    intro acc p h results q hok
    have hinOrder := interleaves_computeChunk (b := b) hcache es p.nextChunk
    rw [h.computeChunks_cons] at hok
    unfold takeIn at hok
    cases hcollect : en.collect b.target (en.computeChunk b es p.nextChunk).1 acc
        (en.computeChunk b es p.nextChunk).2.stats with
    | error err =>
      rw [hcollect] at hok
      cases hok
    | ok collected =>
      rw [hcollect] at hok
      have hfulfilled := h.fulfilled hpure hinOrder hcollect
      have hrest := ih _ _ (h.after hfulfilled collected.2) results q hok
      rw [hfulfilled.progress] at hrest
      rw [List.flatten_cons, effortOf_append, Effort.add_memory]
      simpa [Nat.add_assoc] using hrest

end SideBySide

/-! ## Batches -/

/-- An engine with chunks of another size. -/
def withBatchSize (en : Engine σ) (n : Nat) : Engine σ :=
  { en with settings := { en.settings with batchSize := n } }

section Sizes

variable (en : Engine σ) (n : Nat)

theorem computeOrder_withBatchSize (b : Batch) (e : Entity) (names : List String) :
    ∀ (computed : List (String × Value)) (p : Progress σ),
      (en.withBatchSize n).computeOrder b e names computed p = en.computeOrder b e names computed p := by
  induction names with
  | nil => exact fun _ _ => rfl
  | cons name rest ih =>
    intro computed p
    cases hv : en.catalog.virtual? name with
    | none =>
      have hv' : (en.withBatchSize n).catalog.virtual? name = none := hv
      rw [computeOrder, computeOrder, hv, hv']
      exact ih computed p
    | some v =>
      have hv' : (en.withBatchSize n).catalog.virtual? name = some v := hv
      rw [computeOrder_cons hv, computeOrder_cons hv']
      simp only [ih]
      rfl

theorem computeChunk_withBatchSize (b : Batch) (es : List Entity) :
    ∀ p : Progress σ, (en.withBatchSize n).computeChunk b es p = en.computeChunk b es p := by
  induction es with
  | nil => exact fun _ => rfl
  | cons e es ih =>
    intro p
    have hentity : (en.withBatchSize n).computeEntity b e p = en.computeEntity b e p := by
      unfold computeEntity
      rw [computeOrder_withBatchSize]
    rw [computeChunk, computeChunk, hentity]
    dsimp only
    rw [ih]

theorem collect_withBatchSize (v : VirtualField) (found : Results) :
    ∀ (acc : Results) (stats : BatchStats),
      (en.withBatchSize n).collect v found acc stats = en.collect v found acc stats := by
  induction found with
  | nil => exact fun _ _ => rfl
  | cons r found ih =>
    intro acc stats
    obtain ⟨id, x⟩ := r
    cases x with
    | ok value => exact ih _ _
    | error err =>
      have hsettle : (en.withBatchSize n).settle v err stats = en.settle v err stats := rfl
      rw [collect, collect, hsettle]
      simp only [ih]

/-- The chunks that are given are computed without regard to the size. -/
theorem computeChunks_withBatchSize (b : Batch) (parts : List (List Entity)) :
    ∀ (acc : Results) (p : Progress σ),
      (en.withBatchSize n).computeChunks b parts acc p = en.computeChunks b parts acc p := by
  induction parts with
  | nil => exact fun _ _ => rfl
  | cons es parts ih =>
    intro acc p
    rw [computeChunks_cons, computeChunks_cons, computeChunk_withBatchSize]
    unfold takeIn
    simp only [collect_withBatchSize, ih]

end Sizes

/-- The time that a batch needs is within the limit. -/
def HasTime (en : Engine σ) (field : String) (es : List Entity) : Prop :=
  ∀ v, en.catalog.virtual? field = some v →
    (en.effortOf v es).time ≤ (Budget.ofField v en.settings).timeLimitMs

section Batches

variable {heeds : Bool} {field : String} {es : List Entity} {s : EngineState σ}

theorem unhurried_start (htime : en.HasTime field es) (hheard : (heeds && s.cancelled) = false)
    {v : VirtualField} (hv : en.catalog.virtual? field = some v) (k : Nat) :
    Unhurried en (en.batchOf heeds v s) (chunks k es).flatten (startOf es s) where
  order := rfl
  time := by
    rw [flatten_chunks]
    exact (Nat.zero_add _).trans_le (htime v hv)
  memory := Nat.zero_le _
  heard := hheard

variable (hpure : en.catalog.IsPure) (hcache : en.cache = none) (htime : en.HasTime field es)
  (hheard : (heeds && s.cancelled) = false)

include hpure hcache htime hheard

/-- A batch is as good as one in chunks of one entity each. -/
theorem computeBatch_singly {v : VirtualField} (hv : en.catalog.virtual? field = some v) (n : Nat) :
    ((en.withBatchSize n).computeBatch heeds field es s).1.map BatchOutcome.unchunked =
      (yields (en.computeChunks (en.batchOf heeds v s) (es.map ([·])) [] (startOf es s))).map
        BatchOutcome.unchunked := by
  have hv' : (en.withBatchSize n).catalog.virtual? field = some v := hv
  rw [computeBatch_yields hv', computeChunks_withBatchSize]
  have hsingly := computeChunks_singly hpure hcache (b := en.batchOf heeds v s) (chunks (n - 1) es)
    (ne_nil_of_mem_chunks (n - 1) es) [] (startOf es s) (unhurried_start htime hheard hv _)
  rw [flatten_chunks] at hsingly
  exact hsingly

/-- **The size of the chunks changes nothing but their number.** -/
theorem computeBatch_withBatchSize (n m : Nat) :
    ((en.withBatchSize n).computeBatch heeds field es s).1.map BatchOutcome.unchunked =
      ((en.withBatchSize m).computeBatch heeds field es s).1.map BatchOutcome.unchunked := by
  cases hv : en.catalog.virtual? field with
  | none =>
    have hunknown : ∀ k, (en.withBatchSize k).catalog.virtual? field = none := fun _ => hv
    rw [computeBatch_unknown (hunknown n), computeBatch_unknown (hunknown m)]
  | some v =>
    rw [computeBatch_singly hpure hcache htime hheard hv, computeBatch_singly hpure hcache htime hheard hv]

/-- **A batch whose chunks are computed side by side ends well if and only if the one in order does, and
then with the same outcome.** -/
theorem parallelBatch_iff {outcome : Except ComputationError BatchOutcome}
    (h : en.ParallelBatch heeds field es s outcome) (o : BatchOutcome) :
    outcome = .ok o ↔ (en.computeBatch heeds field es s).1 = .ok o := by
  have hyields : ∀ {run run' : Except ComputationError Results × Progress σ},
      (∀ results q, run = (.ok results, q) ↔ run' = (.ok results, q)) →
      (yields run = .ok o → yields run' = .ok o) := by
    intro run run' hrun hok
    obtain ⟨r, q⟩ := run
    cases r with
    | error err => cases hok
    | ok results => rwa [(hrun results q).1 rfl]
  unfold ParallelBatch at h
  cases hv : en.catalog.virtual? field with
  | none =>
    rw [hv] at h
    rw [computeBatch_unknown hv, h]
  | some v =>
    rw [hv] at h
    rw [computeBatch_yields hv]
    obtain ⟨run, hrun, rfl⟩ := h
    have hiff := parallel_iff hcache hpure hrun (unhurried_start htime hheard hv _)
    exact ⟨hyields hiff, hyields fun results q => (hiff results q).symm⟩

/-- **A batch that ends well has kept to its memory.** -/
theorem effort_within {o : BatchOutcome} (hok : (en.computeBatch heeds field es s).1 = .ok o)
    {v : VirtualField} (hv : en.catalog.virtual? field = some v) :
    (en.effortOf v es).memory ≤ (Budget.ofField v en.settings).memoryLimit := by
  rw [computeBatch_yields hv] at hok
  have hwithin := computeChunks_within hcache hpure (chunks (en.settings.batchSize - 1) es) [] _
    (unhurried_start htime hheard hv _)
  generalize en.computeChunks (en.batchOf heeds v s) _ _ _ = run at hok hwithin
  obtain ⟨r, q⟩ := run
  cases r with
  | error err => cases hok
  | ok results =>
    have hmemory := hwithin results q rfl
    rw [flatten_chunks] at hmemory
    exact (Nat.le_add_left _ _).trans hmemory

/-- **Chunks and schedules do not change a batch.**  Without a cache, without a token that is heeded and
with time for everything: chunks of any size, sizes zero and one being the same, lead to one outcome but
for their number; a batch whose chunks are computed side by side, under any schedule, ends well if and only
if the one in order does, and then with the same results and counts; and the values that have been computed
and accepted in a batch that ends well, those of dependencies included, fit its memory. -/
theorem computeBatch_indifferent :
    (∀ n m, ((en.withBatchSize n).computeBatch heeds field es s).1.map BatchOutcome.unchunked =
      ((en.withBatchSize m).computeBatch heeds field es s).1.map BatchOutcome.unchunked) ∧
    (∀ outcome, en.ParallelBatch heeds field es s outcome →
      ∀ o, outcome = .ok o ↔ (en.computeBatch heeds field es s).1 = .ok o) ∧
    (∀ v o, en.catalog.virtual? field = some v → (en.computeBatch heeds field es s).1 = .ok o →
      (en.effortOf v es).memory ≤ (Budget.ofField v en.settings).memoryLimit) :=
  ⟨computeBatch_withBatchSize hpure hcache htime hheard,
    fun _ h => parallelBatch_iff hpure hcache htime hheard h,
    fun _ _ hv hok => effort_within hpure hcache htime hheard hok hv⟩

end Batches

/-- An even count and an odd one, in chunks of one and in one chunk, and side by side. -/
theorem computeBatch_indifferent_halving :
    halving.HasTime "copy" [counted 1 6, counted 2 3] ∧
    ((halving.withBatchSize 0).computeBatch false "copy" [counted 1 6, counted 2 3]
        { cache := () }).1.map BatchOutcome.unchunked =
      ((halving.withBatchSize 2).computeBatch false "copy" [counted 1 6, counted 2 3]
        { cache := () }).1.map BatchOutcome.unchunked ∧
    (∃ o, (halving.computeBatch false "copy" [counted 1 6, counted 2 3] { cache := () }).1 = .ok o ∧
      ∀ outcome, halving.ParallelBatch false "copy" [counted 1 6, counted 2 3] { cache := () } outcome →
        outcome = .ok o) ∧
    (halving.effortOf copy [counted 1 6, counted 2 3]).memory ≤
      (Budget.ofField copy halving.settings).memoryLimit := by
  have hfield : halving.catalog.virtual? "copy" = some copy := rfl
  have htime : halving.HasTime "copy" [counted 1 6, counted 2 3] := by
    intro v hv
    obtain rfl : copy = v := Option.some.inj (hfield.symm.trans hv)
    decide +kernel
  have hchunks : chunks (halving.settings.batchSize - 1) [counted 1 6, counted 2 3] =
      [[counted 1 6, counted 2 3]] := by
    rw [chunks_cons, show halving.settings.batchSize - 1 = 99 from rfl]
    simp
  have hok : ∃ o, (halving.computeBatch false "copy" [counted 1 6, counted 2 3]
      { cache := () }).1 = .ok o := by
    rw [computeBatch_yields hfield, hchunks]
    refine ⟨⟨[(.int 1, .ok (.int 3)), (.int 2, .error (.dependencyFailed "copy" ⟨"item", .int 2⟩ "half"))],
      { entities := 2, chunks := 1, computed := 2, failed := 1, excluded := 1 }⟩, ?_⟩
    with_unfolding_all rfl
  obtain ⟨o, hok⟩ := hok
  obtain ⟨hsizes, hparallel, hmemory⟩ :=
    computeBatch_indifferent (s := { cache := () }) halving_isPure rfl htime (Bool.false_and _)
  exact ⟨htime, hsizes 0 2, ⟨o, hok, fun outcome h => (hparallel outcome h o).2 hok⟩,
    hmemory copy o hfield hok⟩

end Engine

end FieldQuery
